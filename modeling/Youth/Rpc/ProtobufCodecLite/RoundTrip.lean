/-
  Youth.Rpc.ProtobufCodecLite.RoundTrip

  What the encoder writes, the decoder reads, however the bytes are cut.

  `fillEmptyBuffer_readable` computes the encoder's image: `frame c m`, although
  the frame is built out of order (tag, payload, checksum, then the length in
  front of them).  `loop_onMessageTurn_frames` is the decoder's side: on a buffer that
  holds any prefix of a concatenation of frames it delivers the complete ones and
  stops inside the first incomplete one.  Chunks then only move that point on.
-/

import Youth.Rpc.ProtobufCodecLite.Basic

namespace Youth.Rpc
namespace ProtobufCodecLite

open Youth.Lib Youth.Net

variable {Msg : Type} {c : ProtobufCodecLite Msg}

/-! ## The encoder's image -/

/-- Tag and payload, the checksummed part. -/
def tagged (c : ProtobufCodecLite Msg) (m : Msg) : List UInt8 := c.tag ++ c.pb.serializeToArray m

/-- What the length field counts: tag, payload and checksum. -/
def body (c : ProtobufCodecLite Msg) (m : Msg) : List UInt8 :=
  c.tagged m ++ beBytesInt 4 (intOfSize (c.adler32 (c.tagged m)))

/-- The whole frame. -/
def frame (c : ProtobufCodecLite Msg) (m : Msg) : List UInt8 :=
  beBytesInt 4 (intOfSize (c.body m).length) ++ c.body m

/-- The frame fits the decoder's limit. -/
def Fits (c : ProtobufCodecLite Msg) (m : Msg) : Prop :=
  (c.tag.length + (c.pb.serializeToArray m).length + 4 : Int) ≤ kMaxMessageLen

theorem length_tagged (m : Msg) :
    (c.tagged m).length = c.tag.length + (c.pb.serializeToArray m).length :=
  List.length_append

theorem length_body (m : Msg) :
    (c.body m).length = c.tag.length + (c.pb.serializeToArray m).length + 4 := by
  rw [body, List.length_append, length_tagged, length_beBytesInt]

theorem length_frame (m : Msg) : (c.frame m).length = 4 + (c.body m).length := by
  rw [frame, List.length_append, length_beBytesInt]

theorem Fits.length_body_le {m : Msg} (h : c.Fits m) : (c.body m).length ≤ 64 * 1024 * 1024 := by
  unfold Fits kMaxMessageLen at h
  rw [length_body]
  omega

/-- The payload goes straight into the writable region. -/
theorem serializeToBuffer_yields (hlaw : c.pb.Lawful) (m : Msg) {buf : Buffer} (h : buf.Inv) :
    Buffer.Yields (Prod.snd <$> c.serializeToBuffer m buf)
        (buf.readable ++ c.pb.serializeToArray m) ∧
      (c.serializeToBuffer m buf).val.1 = (c.pb.serializeToArray m).length := by
  have hbyteSize := hlaw.byteSizeLong_eq m
  obtain ⟨hmade, hspace⟩ := Buffer.ensureWritableBytes_yields h (c.pb.byteSizeLong m + 4)
  have hpay := Buffer.hasWritten_yields hmade.inv (Nat.le_of_eq hbyteSize) (by omega)
  rw [hmade.readable, List.take_of_length_le (by omega)] at hpay
  refine ⟨⟨?_, hpay.inv, hpay.readable⟩, hbyteSize⟩
  simp only [serializeToBuffer, Checked.ok_map, Checked.ok_bind, Checked.ok_pure, and_true]
  exact ⟨hmade.ok, hpay.ok⟩

/-- The tail of `fillEmptyBuffer`, on a buffer that holds tag and payload: the
    checksum behind them, then the length in front of everything. -/
theorem sealFrame_yields {m : Msg} (hfit : c.Fits m) {buf : Buffer} (h : buf.Inv)
    (hread : buf.readable = c.tagged m) (hroom : Buffer.kCheapPrepend ≤ buf.readerIndex) {sum : Int}
    (hsum : sum = c.checksum (buf.bufferVec.drop buf.readerIndex) (intOfSize buf.readableBytes)) :
    Buffer.Yields (buf.appendInt32 sum) (c.body m) ∧
      Buffer.Yields ((buf.appendInt32 sum).val.prependInt32
        (intOfSize (buf.appendInt32 sum).val.readableBytes)) (c.frame m) := by
  have hbody := hfit.length_body_le
  have hlen : buf.readableBytes = (c.tagged m).length := by rw [← Buffer.length_readable h, hread]
  have hval : sum = intOfSize (c.adler32 (c.tagged m)) := by
    have hlt : (c.tagged m).length < 2 ^ 31 := by
      rw [length_body, ← length_tagged] at hbody
      omega
    rw [hsum, checksum, hlen, intOfSize_of_lt hlt, uint32OfInt_natCast (by omega), Buffer.drop_readerIndex h,
      hread, List.take_left' rfl]
  have hchk : Buffer.Yields (buf.appendInt32 sum) (c.body m) := by
    have hy := Buffer.append_yields h (beBytesInt 4 sum)
    rw [hread] at hy
    rw [body, ← hval]
    exact hy
  -- the length goes into the reserve, which an append does not touch
  have hroom' : 4 ≤ (buf.appendInt32 sum).val.prependableBytes :=
    Nat.le_trans (by decide) (Buffer.kCheapPrepend_le_ensureWritableBytes hroom _)
  refine ⟨hchk, ?_⟩
  rw [← Buffer.length_readable hchk.inv, hchk.readable, frame, ← hchk.readable]
  exact Buffer.prepend_yields hchk.inv (by rw [length_beBytesInt]; exact hroom')

/-- The encoder writes `frame c m` and none of its assertions fails. -/
theorem fillEmptyBuffer_readable (hlaw : c.pb.Lawful) {m : Msg} (hfit : c.Fits m) {buf : Buffer}
    (h : buf.Inv) (hempty : buf.readable = []) (hroom : Buffer.kCheapPrepend ≤ buf.readerIndex) :
    (c.fillEmptyBuffer buf m).Ok ∧ (c.fillEmptyBuffer buf m).val.readable = c.frame m := by
  -- the tag, then the payload
  have htag := Buffer.append_yields h c.tag
  rw [hempty, List.nil_append] at htag
  obtain ⟨hpay, hsize⟩ := serializeToBuffer_yields hlaw m htag.inv
  rw [htag.readable] at hpay
  have hroom1 : Buffer.kCheapPrepend ≤ (buf.append c.tag).val.readerIndex :=
    Buffer.kCheapPrepend_le_ensureWritableBytes hroom _
  have hroom2 : Buffer.kCheapPrepend ≤
      (c.serializeToBuffer m (buf.append c.tag).val).val.2.readerIndex :=
    Buffer.kCheapPrepend_le_ensureWritableBytes hroom1 _
  -- the checksum behind them and the length in front
  obtain ⟨hchk, hall⟩ := sealFrame_yields hfit hpay.inv hpay.readable hroom2 rfl
  refine ⟨?_, hall.readable⟩
  have hzero : buf.readableBytes = 0 := (Buffer.readable_eq_nil_iff h).mp hempty
  have hpayOk : (c.serializeToBuffer m (buf.append c.tag).val).Ok := Checked.ok_map.mp hpay.ok
  have hlen := Buffer.length_readable hchk.inv
  rw [hchk.readable, length_body, ← hsize] at hlen
  simp only [fillEmptyBuffer, Checked.ok_bind, Checked.ok_check, Checked.ok_mapFaults,
    Checked.val_mapFaults]
  exact ⟨hzero, htag.ok, hpayOk, hchk.ok, Checked.ok_check.mpr hlen.symm, hall.ok⟩

/-! ## One complete frame -/

/-- `parse` gives back the message of a complete body, whatever follows it in memory. -/
theorem parse_body (hlaw : c.pb.Lawful) {m : Msg} (hfit : c.Fits m) (rest : List UInt8) :
    c.parse (c.body m ++ rest) (c.body m).length = .ok m := by
  have hbody := hfit.length_body_le
  have hlen := length_body (c := c) m
  have htagged := length_tagged (c := c) m
  -- Checksum, tag and payload, each at its place in the body
  have hcut : ((c.body m).length - kChecksumLen : Int).toNat = (c.tagged m).length := by
    unfold kChecksumLen
    omega
  have hsum : c.validateChecksum (c.body m ++ rest) (c.body m).length = true := by
    have hexpected : asInt32 ((c.body m ++ rest).drop (c.tagged m).length) =
        intOfSize (c.adler32 (c.tagged m)) := by
      rw [asInt32, body, List.append_assoc, List.drop_left' rfl,
        List.take_left' (length_beBytesInt 4 _), beInt_intOfSize]
    have hactual : c.checksum (c.body m ++ rest) ((c.body m).length - kChecksumLen) =
        intOfSize (c.adler32 (c.tagged m)) := by
      have hsize : uint32OfInt ((c.body m).length - kChecksumLen) = (c.tagged m).length := by
        unfold uint32OfInt kChecksumLen
        omega
      rw [checksum, hsize, body, List.append_assoc, List.take_left' rfl]
    simp only [validateChecksum, hcut, hexpected, hactual, decide_true]
  have htag : (c.body m ++ rest).take c.tag.length = c.tag := by
    rw [body, tagged, List.append_assoc, List.append_assoc, List.take_left' rfl]
  have hdata : ((c.body m ++ rest).drop c.tag.length).take
      (sizeOfInt ((c.body m).length - kChecksumLen - intOfSize c.tag.length)) =
      c.pb.serializeToArray m := by
    have hsize : sizeOfInt ((c.body m).length - kChecksumLen - intOfSize c.tag.length) =
        (c.pb.serializeToArray m).length := by
      rw [intOfSize_of_lt (by omega)]
      unfold kChecksumLen sizeOfInt
      omega
    rw [hsize, body, tagged, List.append_assoc, List.append_assoc, List.drop_left' rfl,
      List.take_left' rfl]
  simp only [parse, if_pos hsum, if_pos htag, hdata, parseFromBuffer, hlaw.parse_serialize]

/-- The loop's guard: a tag that fits an `int` gives the length of an empty frame. -/
theorem guard_eq (h : c.tag.length + 8 < 2 ^ 31) :
    uint32OfInt (c.kMinMessageLen + kHeaderLen) = c.tag.length + 8 := by
  rw [kMinMessageLen, intOfSize_of_lt (by omega), kHeaderLen]
  unfold uint32OfInt
  omega

/-- The length field of a buffer that starts with (a part of) a frame. -/
theorem peekInt32_of_frame {m : Msg} {buf : Buffer} (h : buf.Inv) (h4 : 4 ≤ buf.readableBytes)
    {rest more : List UInt8} (hframe : buf.readable ++ rest = c.frame m ++ more) :
    buf.peekInt32.val = intOfSize (c.body m).length := by
  have hlen := Buffer.length_readable h
  have htake : buf.readable.take 4 = beBytesInt 4 (intOfSize (c.body m).length) := by
    have hcongr := congrArg (List.take 4) hframe
    rw [List.take_append_of_le_length (by omega), frame, List.append_assoc,
      List.take_left' (length_beBytesInt 4 _)] at hcongr
    exact hcongr
  rw [Buffer.peekInt32, Buffer.peekInt_val h h4, htake, beInt_intOfSize]

theorem callRawCb_of_none (hraw : c.rawCb = none) (frame : List UInt8) :
    ¬c.callRawCb frame = some false := by
  rw [callRawCb, hraw]
  simp

/-- Without a raw callback a frame that parses is delivered and dropped. -/
theorem onFrame_of_parse (hraw : c.rawCb = none) {m : Msg} {buf : Buffer} {len : Int}
    {frameLen : Nat} (hparse : c.parse ((buf.bufferVec.drop buf.readerIndex).drop 4) len = .ok m) :
    c.onFrame buf len frameLen = .next [.message m] (buf.retrieve frameLen).val := by
  simp only [onFrame, if_neg (callRawCb_of_none hraw _), hparse]
  simp only [hraw, Option.isSome_none, Bool.false_eq_true, if_false, List.nil_append]

/-- The buffer holds less than the first of the frames that `ms` still stand for. -/
structure Stalled (c : ProtobufCodecLite Msg) (ms : List Msg) (buf : Buffer) : Prop where
  inv : buf.Inv
  short : ∀ m ∈ ms.head?, buf.readableBytes < (c.frame m).length

/-- Of two splits of one list, the longer front part starts with the shorter one. -/
theorem prefix_of_append {α : Type} {xs rest ys more : List α} (h : xs ++ rest = ys ++ more)
    (hlen : ys.length ≤ xs.length) : ∃ zs, xs = ys ++ zs := by
  have hpre : ys <+: xs :=
    List.prefix_of_prefix_length_le (List.prefix_append ys more) (h ▸ List.prefix_append xs rest) hlen
  obtain ⟨zs, hzs⟩ := hpre
  exact ⟨zs, hzs.symm⟩

/-! ## One turn of the loop -/

section Loop

variable (hraw : c.rawCb = none) (htag : c.tag.length + 8 < 2 ^ 31) {m : Msg} {buf : Buffer}

include htag

/-- Fewer bytes than the shortest frame: the loop ends. -/
theorem onMessageTurn_short (hlt : buf.readableBytes < c.tag.length + 8) :
    c.onMessageTurn buf = .stop [] buf := by
  have hguard : ¬c.tag.length + 8 ≤ buf.readableBytes := by omega
  simp only [onMessageTurn, guard_eq htag, if_neg hguard]

/-- What the length checks see at the front of a frame that fits. -/
theorem header_in_range (hfit : c.Fits m) :
    intOfSize (c.body m).length = (c.body m).length ∧
      ¬(kMaxMessageLen < ((c.body m).length : Int) ∨ ((c.body m).length : Int) < c.kMinMessageLen) ∧
      sizeOfInt (kHeaderLen + (c.body m).length) = (c.frame m).length := by
  have hbody := hfit.length_body_le
  have hlen := length_body (c := c) m
  refine ⟨intOfSize_of_lt (by omega), ?_, ?_⟩
  · rw [kMinMessageLen, intOfSize_of_lt (by omega), kMaxMessageLen]
    omega
  · rw [kHeaderLen, sizeOfInt, length_frame]
    omega

/-- The buffer ends inside a frame: the loop ends and leaves it. -/
theorem onMessageTurn_incomplete (hfit : c.Fits m) (h : buf.Inv) {rest more : List UInt8}
    (hframe : buf.readable ++ rest = c.frame m ++ more)
    (hlt : buf.readableBytes < (c.frame m).length) :
    c.onMessageTurn buf = .stop [] buf := by
  by_cases hguard : c.tag.length + 8 ≤ buf.readableBytes
  · obtain ⟨hint, hrange, hsize⟩ := header_in_range htag hfit
    have hpeek := peekInt32_of_frame h (by omega) hframe
    rw [hint] at hpeek
    have hpart : ¬(c.frame m).length ≤ buf.readableBytes := by omega
    simp only [onMessageTurn, guard_eq htag, hpeek, if_neg hrange, hsize, if_pos hguard,
      if_neg hpart]
  · exact onMessageTurn_short htag (by omega)

include hraw in
/-- The buffer starts with a complete frame: its message is delivered, its bytes
    are dropped and the loop goes on. -/
theorem onMessageTurn_complete (hlaw : c.pb.Lawful) (hfit : c.Fits m) (h : buf.Inv)
    {more : List UInt8} (hframe : buf.readable = c.frame m ++ more) :
    c.onMessageTurn buf = .next [.message m] (buf.retrieve (c.frame m).length).val := by
  have hlen := Buffer.length_readable h
  rw [hframe, List.length_append] at hlen
  -- the arithmetic first, while only lengths are in sight
  have hframeLen := length_frame (c := c) m
  have hbodyLen := length_body (c := c) m
  have hguardLen : c.tag.length + 8 ≤ buf.readableBytes := by omega
  have hwholeLen : (c.frame m).length ≤ buf.readableBytes := by omega
  have h4 : 4 ≤ buf.readableBytes := by omega
  obtain ⟨hint, hrange, hsize⟩ := header_in_range htag hfit
  have hnil : buf.readable ++ [] = c.frame m ++ more := by rw [List.append_nil, hframe]
  have hpeek := peekInt32_of_frame h h4 hnil
  rw [hint] at hpeek
  have hmem : (buf.bufferVec.drop buf.readerIndex).drop 4 =
      c.body m ++ (more ++ buf.bufferVec.drop buf.writerIndex) := by
    rw [Buffer.drop_readerIndex h, hframe, frame, List.append_assoc, List.append_assoc,
      List.drop_left' (length_beBytesInt 4 _)]
  -- `parse` is given the memory behind the length field, not only the readable bytes
  have hparse := parse_body hlaw hfit (more ++ buf.bufferVec.drop buf.writerIndex)
  rw [← hmem, ← hpeek] at hparse
  rw [← hpeek] at hrange hsize
  have hguard : uint32OfInt (c.kMinMessageLen + kHeaderLen) ≤ buf.readableBytes := by
    rw [guard_eq htag]
    exact hguardLen
  have hwhole : sizeOfInt (kHeaderLen + buf.peekInt32.val) ≤ buf.readableBytes := by
    rw [hsize]
    exact hwholeLen
  simp only [onMessageTurn, if_pos hguard, if_neg hrange, if_pos hwhole]
  rw [onFrame_of_parse hraw hparse, hsize]

include hraw

/-- The loop delivers the complete frames and stalls inside the first incomplete one. -/
theorem loop_onMessageTurn_frames (hlaw : c.pb.Lawful) {rest : List UInt8} :
    ∀ {ms : List Msg} {fuel : Nat} {buf : Buffer}, buf.Inv → (∀ m ∈ ms, c.Fits m) →
      buf.readable ++ rest = (ms.map c.frame).flatten → buf.readableBytes < fuel →
      ∃ done todo buf', ms = done ++ todo ∧
        loop c.onMessageTurn fuel buf = some (done.map .message, buf') ∧ Stalled c todo buf' ∧
        buf'.readable ++ rest = (todo.map c.frame).flatten := by
  intro ms
  induction ms with
  | nil =>
      intro fuel buf h _ hread hfuel
      obtain ⟨fuel, rfl⟩ : ∃ n, fuel = n + 1 := ⟨fuel - 1, by omega⟩
      have hempty : buf.readable = [] := (List.append_eq_nil_iff.mp hread).1
      have hzero := (Buffer.readable_eq_nil_iff h).mp hempty
      refine ⟨[], [], buf, rfl, ?_, ⟨h, by simp⟩, hread⟩
      exact loop_stop (onMessageTurn_short htag (by omega)) fuel
  | cons m ms ih =>
      intro fuel buf h hfits hread hfuel
      obtain ⟨fuel, rfl⟩ : ∃ n, fuel = n + 1 := ⟨fuel - 1, by omega⟩
      have hfit := hfits m List.mem_cons_self
      rw [List.map_cons, List.flatten_cons] at hread
      rcases Nat.lt_or_ge buf.readableBytes (c.frame m).length with hlt | hge
      · -- the bytes at hand end inside this frame
        refine ⟨[], m :: ms, buf, rfl, ?_, ⟨h, by simpa using hlt⟩, hread⟩
        exact loop_stop (onMessageTurn_incomplete htag hfit h hread hlt) fuel
      · -- a whole frame is there: deliver it and go on behind it
        obtain ⟨more, hmore⟩ : ∃ more, buf.readable = c.frame m ++ more :=
          prefix_of_append hread (by rw [Buffer.length_readable h]; exact hge)
        have hy := Buffer.retrieve_yields h hge
        have hdrop : buf.readable.drop (c.frame m).length = more := by
          rw [hmore, List.drop_left]
        rw [hdrop] at hy
        have hmoreRest : more ++ rest = (ms.map c.frame).flatten := by
          rw [hmore, List.append_assoc] at hread
          exact List.append_cancel_left hread
        have hshorter : (buf.retrieve (c.frame m).length).val.readableBytes < fuel := by
          have hlen := Buffer.length_readable h
          have hlen' := Buffer.length_readable hy.inv
          have hframe := length_frame (c := c) m
          rw [hmore, List.length_append] at hlen
          rw [hy.readable] at hlen'
          omega
        obtain ⟨done, todo, buf', hms, hloop, hstall, hleft⟩ :=
          ih hy.inv (fun m' hm' => hfits m' (List.mem_cons_of_mem _ hm'))
            (by rw [hy.readable]; exact hmoreRest) hshorter
        refine ⟨m :: done, todo, buf', by rw [hms, List.cons_append], ?_, hstall, hleft⟩
        rw [loop_next (onMessageTurn_complete hraw htag hlaw hfit h hmore), hloop]
        rfl

/-- Every chunk moves the point inside the stream on, and the last one reaches the end. -/
theorem onChunks_frames (hlaw : c.pb.Lawful) :
    ∀ {chunks : List (List UInt8)} {ms : List Msg} {buf : Buffer}, (∀ m ∈ ms, c.Fits m) →
      Stalled c ms buf → buf.readable ++ chunks.flatten = (ms.map c.frame).flatten →
      ∃ buf', c.onChunks buf chunks = some (ms.map .message, buf') ∧ buf'.readable = [] := by
  intro chunks
  induction chunks with
  | nil =>
      intro ms buf _ hstall hread
      rw [List.flatten_nil, List.append_nil] at hread
      cases ms with
      | nil => exact ⟨buf, rfl, hread⟩
      | cons m ms =>
          -- a whole frame cannot be left
          have hlt := hstall.short m rfl
          have hlen := Buffer.length_readable hstall.inv
          rw [hread, List.map_cons, List.flatten_cons, List.length_append] at hlen
          omega
  | cons chunk chunks ih =>
      intro ms buf hfits hstall hread
      -- This chunk completes the messages `done`; the decoder stalls inside the next frame
      have hy := Buffer.append_yields hstall.inv chunk
      have hread' : (buf.append chunk).val.readable ++ chunks.flatten =
          (ms.map c.frame).flatten := by
        rw [hy.readable, List.append_assoc, ← List.flatten_cons, hread]
      obtain ⟨done, todo, buf1, hms, hloop, hstall1, hread1⟩ :=
        loop_onMessageTurn_frames hraw htag hlaw hy.inv hfits hread' (Nat.lt_succ_self _)
      obtain ⟨buf2, hrest, hempty⟩ :=
        ih (fun m hm => hfits m (by rw [hms]; exact List.mem_append_right _ hm)) hstall1 hread1
      refine ⟨buf2, ?_, hempty⟩
      rw [onChunks, onMessage, hloop, Option.bind_some, hrest, Option.map_some, hms,
        List.map_append]

end Loop

/-! ## No message at all

Without a message every chunk is empty and the buffer stays as it was built.  The
tag may then be longer than an `int` counts, and the guard of the loop even `0`; the
length field is read from the zeroed vector. -/

theorem beInt_replicate_zero (w n : Nat) : beInt w (List.replicate n 0) = 0 := by
  have hzero : beNat (List.replicate n 0) = 0 := by
    induction n with
    | zero => rfl
    | succ n ih =>
        rw [List.replicate_succ', beNat_concat, ih]
        rfl
  rw [beInt, hzero]
  exact Int.zero_bmod

theorem peekInt32_new (size : Nat) : (Buffer.new size).peekInt32.val = 0 := by
  have hslice (lo hi : Nat) : ∃ n, slice (Buffer.new size).bufferVec lo hi = List.replicate n 0 := by
    refine ⟨min (hi - lo) (Buffer.kCheapPrepend + size - lo), ?_⟩
    rw [slice, Buffer.new, List.drop_replicate, List.take_replicate]
  obtain ⟨n, hn⟩ := hslice (Buffer.new size).readerIndex ((Buffer.new size).readerIndex + 4)
  simp only [Buffer.peekInt32, Buffer.peekInt, Checked.val_bind, Checked.val_pure, hn,
    beInt_replicate_zero]

theorem onMessageTurn_new (size : Nat) :
    c.onMessageTurn (Buffer.new size) = .stop [] (Buffer.new size) := by
  have hbytes := (Buffer.new_sizes size).1
  have hwhole : ¬sizeOfInt (kHeaderLen + 0) ≤ 0 := by decide
  by_cases hguard : uint32OfInt (c.kMinMessageLen + kHeaderLen) ≤ 0
  · -- the sum wrapped around to 0, so `kMinMessageLen` is negative
    have hrange : ¬(kMaxMessageLen < 0 ∨ 0 < c.kMinMessageLen) := by
      have hhi : c.kMinMessageLen < 2 ^ 31 := intOfSize_lt _
      unfold uint32OfInt kHeaderLen at hguard
      unfold kMaxMessageLen
      omega
    simp only [onMessageTurn, hbytes, peekInt32_new, if_pos hguard, if_neg hrange, if_neg hwhole]
  · simp only [onMessageTurn, hbytes, if_neg hguard]

theorem onChunks_new_of_flatten_nil (size : Nat) {chunks : List (List UInt8)}
    (h : chunks.flatten = []) :
    c.onChunks (Buffer.new size) chunks = some ([], Buffer.new size) := by
  induction chunks with
  | nil => rfl
  | cons chunk chunks ih =>
      obtain ⟨rfl, hrest⟩ := List.append_eq_nil_iff.mp (List.flatten_cons ▸ h)
      rw [onChunks, Buffer.append_nil, onMessage, loop_stop (onMessageTurn_new size),
        Option.bind_some, ih hrest]
      rfl

/-! ## The round trip -/

/-- The stream a connection carries for `ms`: each message is encoded into a fresh
    buffer, as `send` does, and the buffers are sent one after the other. -/
def encoded (c : ProtobufCodecLite Msg) (ms : List Msg) : List UInt8 :=
  (ms.map fun m => (c.fillEmptyBuffer (Buffer.new Buffer.kInitialSize) m).val.readable).flatten

theorem encoded_eq (hlaw : c.pb.Lawful) {ms : List Msg} (hfits : ∀ m ∈ ms, c.Fits m) :
    c.encoded ms = (ms.map c.frame).flatten := by
  have hmap : (ms.map fun m => (c.fillEmptyBuffer (Buffer.new Buffer.kInitialSize) m).val.readable) =
      ms.map c.frame :=
    List.map_congr_left fun m hm => (fillEmptyBuffer_readable hlaw (hfits m hm)
      (Buffer.new_inv _) (Buffer.readable_new _) (Nat.le_refl _)).2
  rw [encoded, hmap]

/-- **Round trip.**  However the encoded stream is cut, the decoder calls the message
    callback with `ms` in order, makes no other call, and ends with nothing unread. -/
theorem onChunks_encoded (c : ProtobufCodecLite Msg) (hlaw : c.pb.Lawful) (hraw : c.rawCb = none)
    (ms : List Msg) (hfits : ∀ m ∈ ms, c.Fits m) (size : Nat) (chunks : List (List UInt8))
    (hchunks : chunks.flatten = c.encoded ms) :
    ∃ buf, c.onChunks (Buffer.new size) chunks = some (ms.map .message, buf) ∧
      buf.readable = [] := by
  rw [encoded_eq hlaw hfits] at hchunks
  cases ms with
  | nil => exact ⟨_, onChunks_new_of_flatten_nil size hchunks, Buffer.readable_new size⟩
  | cons m ms =>
      -- a message that fits has a tag that fits
      have htag : c.tag.length + 8 < 2 ^ 31 := by
        have hbody := (hfits m List.mem_cons_self).length_body_le
        rw [length_body] at hbody
        omega
      refine onChunks_frames hraw htag hlaw hfits ⟨Buffer.new_inv size, ?_⟩ ?_
      · intro m' _
        rw [(Buffer.new_sizes size).1, length_frame]
        omega
      · rw [Buffer.readable_new, List.nil_append, hchunks]

/-- zlib's checksum, from the start value 1. -/
def adler32FromOne (bs : List UInt8) : Nat :=
  let sums := bs.foldl (fun s b => ((s.1 + b.toNat) % 65521, (s.2 + s.1 + b.toNat) % 65521)) (1, 0)
  65536 * sums.2 + sums.1

/-- The codec of `RpcCodec` ("RPC0"), with byte strings for messages. -/
def sampleCodec : ProtobufCodecLite (List UInt8) where
  tag := [82, 80, 67, 48]
  pb := { byteSizeLong := List.length, serializeToArray := id, parseFromArray := some }
  adler32 := adler32FromOne

/-- The messages `[7]` and `[]`, cut inside the first payload, checksum and second header. -/
theorem onChunks_encoded_sampleCodec :
    ∃ buf, sampleCodec.onChunks (Buffer.new 16)
        [[0, 0, 0, 9, 82, 80, 67, 48], [], [7, 4], [15, 1, 29, 0, 0, 0],
          [8, 82, 80, 67, 48, 2, 242, 1, 22]] = some ([.message [7], .message []], buf) ∧
      buf.readable = [] := by
  have hlaw : sampleCodec.pb.Lawful := ⟨fun _ => rfl, fun _ => rfl⟩
  have hfits : ∀ m ∈ [[7], []], sampleCodec.Fits m := by
    intro m hm
    rcases List.mem_pair.mp hm with rfl | rfl <;> (unfold Fits; decide)
  refine onChunks_encoded sampleCodec hlaw rfl [[7], []] hfits 16 _ ?_
  rw [encoded_eq hlaw hfits]
  decide +kernel

end ProtobufCodecLite
end Youth.Rpc
