/-
  Youth.Rpc.ProtobufCodecLite.FailStop

  What the decoder makes of a stream, well-formed or not.

  `decodeTurn` is a turn of `onMessage` on the unread bytes alone.  Each of its verdicts
  is reached on a prefix and stays on every extension: the length field is read once the
  shortest frame is there, and checksum, tag and payload once the whole frame is.  So the
  loop is one of those that `feed_eq` speaks of.  The error callback leaves the buffer
  alone; the unread bytes then start with the frame at fault for ever after.
-/

import Youth.Lib.Feed
import Youth.Rpc.ProtobufCodecLite.RoundTrip

namespace Youth.Rpc
namespace ProtobufCodecLite

open Youth.Lib Youth.Net

variable {Msg : Type} {c : ProtobufCodecLite Msg}

/-- A turn of `onMessage` without a raw callback, on the unread bytes. -/
def decodeTurn (c : ProtobufCodecLite Msg) (bytes : List UInt8) :
    Turn (CodecEvent Msg) (List UInt8) :=
  if c.tag.length + 8 ≤ bytes.length then
    let len := asInt32 bytes
    if kMaxMessageLen < len ∨ len < c.tag.length + 4 then .stop [.error .kInvalidLength] bytes
    else if 4 + len.toNat ≤ bytes.length then
      match c.parse (bytes.drop 4) len with
      | .ok message => .next [.message message] (bytes.drop (4 + len.toNat))
      | .error errorCode => .stop [.error errorCode] bytes
    else .stop [] bytes
  else .stop [] bytes

/-! ## Verdicts on a prefix -/

theorem asInt32_append {bytes : List UInt8} (h4 : 4 ≤ bytes.length) (more : List UInt8) :
    asInt32 (bytes ++ more) = asInt32 bytes := by
  rw [asInt32, asInt32, List.take_append_of_le_length h4]

section Parse

variable (htag : c.tag.length + 8 < 2 ^ 31)

include htag

/-- `parse` looks at the `len` bytes of the frame only. -/
theorem parse_append {buf : List UInt8} {len : Int} (hmin : c.tag.length + 4 ≤ len)
    (hlen : len.toNat ≤ buf.length) (more : List UInt8) :
    c.parse (buf ++ more) len = c.parse buf len := by
  -- Checksum, tag and payload all lie inside the frame
  have hsum : c.validateChecksum (buf ++ more) len = c.validateChecksum buf len := by
    have hcut : (len - kChecksumLen).toNat + 4 ≤ buf.length := by
      unfold kChecksumLen
      omega
    have hexpected : asInt32 ((buf ++ more).drop (len - kChecksumLen).toNat) =
        asInt32 (buf.drop (len - kChecksumLen).toNat) := by
      rw [List.drop_append_of_le_length (by omega), asInt32_append]
      rw [List.length_drop]
      omega
    have hactual : c.checksum (buf ++ more) (len - kChecksumLen) =
        c.checksum buf (len - kChecksumLen) := by
      have hsize : uint32OfInt (len - kChecksumLen) ≤ buf.length := by
        unfold uint32OfInt kChecksumLen
        omega
      rw [checksum, checksum, List.take_append_of_le_length hsize]
    simp only [validateChecksum, hexpected, hactual]
  have htake : (buf ++ more).take c.tag.length = buf.take c.tag.length :=
    List.take_append_of_le_length (by omega)
  have hdata : ((buf ++ more).drop c.tag.length).take
      (sizeOfInt (len - kChecksumLen - intOfSize c.tag.length)) =
      (buf.drop c.tag.length).take (sizeOfInt (len - kChecksumLen - intOfSize c.tag.length)) := by
    rw [List.drop_append_of_le_length (by omega)]
    refine List.take_append_of_le_length ?_
    rw [intOfSize_of_lt (by omega), List.length_drop]
    unfold kChecksumLen sizeOfInt
    omega
  simp only [parse, hsum, htake, hdata]

/-- What a turn does, on the bytes there are and with more behind them: it waits, rejects
    the frame, or delivers its message and reads on behind it. -/
theorem decodeTurn_cases (bytes : List UInt8) :
    c.decodeTurn bytes = .stop [] bytes ∨
    (∃ code, ∀ more, c.decodeTurn (bytes ++ more) = .stop [.error code] (bytes ++ more)) ∨
    (∃ m rest, rest.length < bytes.length ∧
      ∀ more, c.decodeTurn (bytes ++ more) = .next [.message m] (rest ++ more)) := by
  by_cases hshort : c.tag.length + 8 ≤ bytes.length
  swap
  · exact .inl (if_neg hshort)
  have hshort' (more : List UInt8) : c.tag.length + 8 ≤ (bytes ++ more).length := by
    rw [List.length_append]
    omega
  have hlen (more : List UInt8) : asInt32 (bytes ++ more) = asInt32 bytes :=
    asInt32_append (by omega) more
  -- the length field is judged as soon as the shortest frame is there
  by_cases hrange : kMaxMessageLen < asInt32 bytes ∨ asInt32 bytes < c.tag.length + 4
  · refine .inr (.inl ⟨.kInvalidLength, fun more => ?_⟩)
    simp only [decodeTurn, if_pos (hshort' more), hlen, if_pos hrange]
  by_cases hwhole : 4 + (asInt32 bytes).toNat ≤ bytes.length
  swap
  · refine .inl ?_
    simp only [decodeTurn, if_pos hshort, if_neg hrange, if_neg hwhole]
  have hwhole' (more : List UInt8) : 4 + (asInt32 bytes).toNat ≤ (bytes ++ more).length := by
    rw [List.length_append]
    omega
  -- the frame is complete, and `parse` sees the same whatever comes behind it
  have hparse (more : List UInt8) : c.parse ((bytes ++ more).drop 4) (asInt32 bytes) =
      c.parse (bytes.drop 4) (asInt32 bytes) := by
    rw [List.drop_append_of_le_length (by omega)]
    refine parse_append htag (by omega) ?_ more
    rw [List.length_drop]
    omega
  have hturn (more : List UInt8) : c.decodeTurn (bytes ++ more) =
      match c.parse (bytes.drop 4) (asInt32 bytes) with
      | .ok message => .next [.message message] (bytes.drop (4 + (asInt32 bytes).toNat) ++ more)
      | .error errorCode => .stop [.error errorCode] (bytes ++ more) := by
    simp only [decodeTurn, if_pos (hshort' more), hlen, if_neg hrange, if_pos (hwhole' more), hparse,
      List.drop_append_of_le_length hwhole]
  rcases hresult : c.parse (bytes.drop 4) (asInt32 bytes) with code | m
  · refine .inr (.inl ⟨code, fun more => ?_⟩)
    rw [hturn, hresult]
  · refine .inr (.inr ⟨m, bytes.drop (4 + (asInt32 bytes).toNat), ?_, fun more => ?_⟩)
    · rw [List.length_drop]
      omega
    · rw [hturn, hresult]

theorem decodeTurn_next {bytes rest : List UInt8} {events : List (CodecEvent Msg)}
    (h : c.decodeTurn bytes = .next events rest) :
    (∃ m, events = [.message m]) ∧ rest.length < bytes.length ∧
      ∀ more, c.decodeTurn (bytes ++ more) = .next events (rest ++ more) := by
  rcases decodeTurn_cases htag bytes with hwait | ⟨code, herror⟩ | ⟨m, left, hlt, hmessage⟩
  · rw [hwait] at h
    cases h
  · have hstop := herror []
    rw [List.append_nil, h] at hstop
    cases hstop
  · have hnext := hmessage []
    rw [List.append_nil, List.append_nil, h] at hnext
    cases hnext
    exact ⟨⟨m, rfl⟩, hlt, hmessage⟩

theorem decodeTurn_stop {bytes rest : List UInt8} {events : List (CodecEvent Msg)}
    (h : c.decodeTurn bytes = .stop events rest) :
    rest = bytes ∧ (events = [] ∨ (∃ code, events = [.error code]) ∧
      ∀ more, c.decodeTurn (bytes ++ more) = .stop events (bytes ++ more)) := by
  rcases decodeTurn_cases htag bytes with hwait | ⟨code, herror⟩ | ⟨m, left, -, hmessage⟩
  · rw [hwait] at h
    cases h
    exact ⟨rfl, .inl rfl⟩
  · have hstop := herror []
    rw [List.append_nil, h] at hstop
    cases hstop
    exact ⟨rfl, .inr ⟨⟨code, rfl⟩, herror⟩⟩
  · have hnext := hmessage []
    rw [List.append_nil, h] at hnext
    cases hnext

theorem decodeTurn_prefixDecided : PrefixDecided c.decodeTurn where
  next := fun h => (decodeTurn_next htag h).2
  stop := by
    intro xs ys events h
    obtain ⟨hsame, hverdict⟩ := decodeTurn_stop htag h
    refine ⟨hsame, fun hne => ?_⟩
    rcases hverdict with hnone | ⟨-, hmore⟩
    · exact absurd hnone hne
    · exact hmore

/-- The decoder reads messages, and its verdict is an error or none. -/
theorem reads_messages {xs ys : List UInt8} {events verdict : List (CodecEvent Msg)}
    (h : Reads c.decodeTurn xs events verdict ys) :
    ∃ (ms : List Msg) (failure : Option ErrorCode),
      events = ms.map .message ∧ verdict = failure.toList.map .error := by
  induction h with
  | stop hstop =>
      rcases (decodeTurn_stop htag hstop).2 with rfl | ⟨⟨code, rfl⟩, -⟩
      · exact ⟨[], none, rfl, rfl⟩
      · exact ⟨[], some code, rfl, rfl⟩
  | next hnext _ ih =>
      obtain ⟨ms, failure, rfl, hverdict⟩ := ih
      obtain ⟨⟨m, rfl⟩, -⟩ := decodeTurn_next htag hnext
      exact ⟨m :: ms, failure, rfl, hverdict⟩

end Parse

/-! ## The loop on the buffer -/

section Buffer

variable (hraw : c.rawCb = none) (herror : ∀ code buf, c.errorCallback code buf = buf)
  (htag : c.tag.length + 8 < 2 ^ 31) {buf : Buffer}

include hraw herror htag

omit herror htag in
/-- One that does not parse is reported and left in the buffer. -/
theorem onFrame_of_error {code : ErrorCode} {len : Int} {frameLen : Nat}
    (hparse : c.parse ((buf.bufferVec.drop buf.readerIndex).drop 4) len = .error code) :
    c.onFrame buf len frameLen = .stop [.error code] (c.errorCallback code buf) := by
  simp only [onFrame, if_neg (callRawCb_of_none hraw _), hparse]
  simp only [hraw, Option.isSome_none, Bool.false_eq_true, if_false, List.nil_append]

/-- A turn on the buffer is a turn on its readable bytes. -/
theorem onMessageTurn_readable (h : buf.Inv) :
    c.decodeTurn buf.readable = (c.onMessageTurn buf).map Buffer.readable ∧
      (c.onMessageTurn buf).state.Inv := by
  have hlen := Buffer.length_readable h
  have hmin : c.kMinMessageLen = c.tag.length + 4 := by
    rw [kMinMessageLen, intOfSize_of_lt (by omega)]
    omega
  unfold onMessageTurn decodeTurn
  rw [guard_eq htag, hlen, hmin]
  by_cases hshort : c.tag.length + 8 ≤ buf.readableBytes
  swap
  · rw [if_neg hshort, if_neg hshort]
    exact ⟨rfl, h⟩
  have hpeek : buf.peekInt32.val = asInt32 buf.readable := Buffer.peekInt_val h (by omega)
  rw [if_pos hshort, if_pos hshort, hpeek]
  by_cases hrange : kMaxMessageLen < asInt32 buf.readable ∨ asInt32 buf.readable < c.tag.length + 4
  · rw [if_pos hrange, if_pos hrange, herror]
    exact ⟨rfl, h⟩
  have hsize : sizeOfInt (kHeaderLen + asInt32 buf.readable) = 4 + (asInt32 buf.readable).toNat := by
    unfold kMaxMessageLen at hrange
    unfold sizeOfInt kHeaderLen
    omega
  rw [if_neg hrange, if_neg hrange, hsize]
  by_cases hwhole : 4 + (asInt32 buf.readable).toNat ≤ buf.readableBytes
  swap
  · rw [if_neg hwhole, if_neg hwhole]
    exact ⟨rfl, h⟩
  rw [if_pos hwhole, if_pos hwhole]
  -- `parse` is given the memory behind the length field, and looks at the frame only
  have hparse : c.parse ((buf.bufferVec.drop buf.readerIndex).drop 4) (asInt32 buf.readable) =
      c.parse (buf.readable.drop 4) (asInt32 buf.readable) := by
    rw [Buffer.drop_readerIndex h, List.drop_append_of_le_length (by omega)]
    refine parse_append htag (by omega) ?_ _
    rw [List.length_drop]
    omega
  rcases hresult : c.parse (buf.readable.drop 4) (asInt32 buf.readable) with code | m
  · rw [onFrame_of_error hraw (hparse.trans hresult), herror]
    exact ⟨rfl, h⟩
  · have hy := Buffer.retrieve_yields h hwhole
    rw [onFrame_of_parse hraw (hparse.trans hresult)]
    rw [Turn.state_next, Turn.map, hy.readable]
    exact ⟨rfl, hy.inv⟩

theorem onMessage_readable (h : buf.Inv) :
    loop c.decodeTurn (buf.readable.length + 1) buf.readable =
      (c.onMessage buf).map fun p => (p.1, p.2.readable) := by
  rw [Buffer.length_readable h]
  exact loop_map_of (I := Buffer.Inv) (fun _ hs => (onMessageTurn_readable hraw herror htag hs).2)
    (fun _ hs => (onMessageTurn_readable hraw herror htag hs).1) _ h

/-- Feeding the buffer is feeding its readable bytes. -/
theorem onChunks_readable (h : buf.Inv) (chunks : List (List UInt8)) :
    feed c.decodeTurn buf.readable chunks =
      (c.onChunks buf chunks).map fun p => (p.1, p.2.readable) := by
  induction chunks generalizing buf with
  | nil => rfl
  | cons chunk chunks ih =>
      have hy := Buffer.append_yields h chunk
      rw [feed, onChunks, ← hy.readable, onMessage_readable hraw herror htag hy.inv]
      rcases hcall : c.onMessage (buf.append chunk).val with _ | ⟨events, buf1⟩
      · rfl
      · have hinv : buf1.Inv := (loops_of_loop hcall).invariant (I := Buffer.Inv)
          (fun _ hs => (onMessageTurn_readable hraw herror htag hs).2) hy.inv
        rw [Option.map_some, Option.bind_some, Option.bind_some, ih hinv, Option.map_map,
          Option.map_map]
        rfl

end Buffer

/-! ## What the callbacks see -/

/-- The messages delivered, in order. -/
def messages (events : List (CodecEvent Msg)) : List Msg :=
  events.filterMap fun
    | .message m => some m
    | _ => none

/-- The first error code reported. -/
def firstError (events : List (CodecEvent Msg)) : Option ErrorCode :=
  events.findSome? fun
    | .error code => some code
    | _ => none

/-- Messages, then the same error `n` times if there is one. -/
def report (ms : List Msg) (failure : Option ErrorCode) (n : Nat) : List (CodecEvent Msg) :=
  ms.map .message ++ (List.replicate n (failure.toList.map .error)).flatten

theorem mem_errors (failure : Option ErrorCode) (n : Nat) {e : CodecEvent Msg}
    (he : e ∈ (List.replicate n (failure.toList.map .error)).flatten) : ∃ code, e = .error code := by
  obtain ⟨errors, herrors, hmem⟩ := List.mem_flatten.mp he
  rw [(List.mem_replicate.mp herrors).2] at hmem
  obtain ⟨code, -, rfl⟩ := List.mem_map.mp hmem
  exact ⟨code, rfl⟩

theorem messages_errors {events : List (CodecEvent Msg)} (h : ∀ e ∈ events, ∃ code, e = .error code) :
    messages events = [] := by
  refine List.filterMap_eq_nil_iff.mpr fun e he => ?_
  obtain ⟨code, rfl⟩ := h e he
  rfl

theorem messages_report (ms : List Msg) (failure : Option ErrorCode) (n : Nat) :
    messages (report ms failure n) = ms := by
  have hnone : messages (List.replicate n (failure.toList.map .error)).flatten = ([] : List Msg) :=
    messages_errors fun _ he => mem_errors failure n he
  unfold messages at hnone ⊢
  rw [report, List.filterMap_append, hnone, List.append_nil, List.filterMap_map]
  exact List.filterMap_some

theorem firstError_report (ms : List Msg) {failure : Option ErrorCode} {n : Nat}
    (h : failure ≠ none → 0 < n) : firstError (report ms failure n) = failure := by
  have hskip : firstError (ms.map .message) = none := by
    refine List.findSome?_eq_none_iff.mpr fun e he => ?_
    obtain ⟨m, -, rfl⟩ := List.mem_map.mp he
    rfl
  unfold firstError at hskip ⊢
  rw [report, List.findSome?_append, hskip, Option.none_or]
  cases failure with
  | none => simp
  | some code =>
      obtain ⟨n, rfl⟩ := Nat.exists_eq_add_one_of_ne_zero (Nat.ne_of_gt (h (by simp)))
      rw [List.replicate_succ]
      rfl

/-- Behind an error there is no message. -/
theorem messages_after_error {ms : List Msg} {failure : Option ErrorCode} {n : Nat}
    {before after : List (CodecEvent Msg)} {code : ErrorCode}
    (h : report ms failure n = before ++ .error code :: after) : messages after = [] := by
  -- Over the messages: each of them is in front of the error
  induction ms generalizing before with
  | nil =>
      refine messages_errors fun e he => mem_errors failure n ?_
      have hmem : e ∈ before ++ .error code :: after := by simp [he]
      rw [← h] at hmem
      exact hmem
  | cons m ms ih =>
      cases before with
      | nil => cases h
      | cons e before =>
          rw [report, List.map_cons, List.cons_append, List.cons_append] at h
          exact ih (List.cons.inj h).2

/-- A stream has its messages and its error, however it is cut. -/
theorem exists_report (hraw : c.rawCb = none) (herror : ∀ code buf, c.errorCallback code buf = buf)
    (htag : c.tag.length + 8 < 2 ^ 31) (stream : List UInt8) :
    ∃ ms failure, ∀ (size : Nat) (chunks : List (List UInt8)), chunks.flatten = stream →
      ∃ n buf, c.onChunks (Buffer.new size) chunks = some (report ms failure n, buf) ∧
        (failure ≠ none → 0 < n) := by
  have hdecided := decodeTurn_prefixDecided htag
  obtain ⟨events, verdict, rest, hreads⟩ := exists_reads hdecided stream
  obtain ⟨ms, failure, rfl, rfl⟩ := reads_messages htag hreads
  refine ⟨ms, failure, fun size chunks hchunks => ?_⟩
  have hwait : c.decodeTurn [] = .stop [] [] := if_neg (by simp)
  rw [← hchunks, ← List.nil_append chunks.flatten] at hreads
  obtain ⟨n, left, hfeed, hpos⟩ := feed_eq hdecided hwait hreads
  rw [← Buffer.readable_new size, onChunks_readable hraw herror htag (Buffer.new_inv size)] at hfeed
  obtain ⟨⟨made, buf⟩, hrun, hmade⟩ := Option.map_eq_some_iff.mp hfeed
  obtain ⟨rfl, -⟩ := Prod.mk.inj hmade
  refine ⟨n, buf, hrun, fun hsome => hpos ?_⟩
  cases failure with
  | none => exact absurd rfl hsome
  | some code => simp

/-- **The cut does not matter, and an error is final.**  Without a raw callback, and with an
    error callback that leaves the buffer alone: two ways of cutting one stream deliver the
    same messages in the same order and report the same first error, if any; and in every
    run, whatever chunks come behind an error, no message comes behind it.  (`kMinMessageLen`
    and `kHeaderLen` add up within an `int`; the tag of `RpcCodec` has four bytes.) -/
theorem onChunks_of_stream (c : ProtobufCodecLite Msg) (hraw : c.rawCb = none)
    (herror : ∀ code buf, c.errorCallback code buf = buf) (htag : c.tag.length + 8 < 2 ^ 31)
    (size size' : Nat) (chunks chunks' : List (List UInt8))
    (hstream : chunks.flatten = chunks'.flatten) :
    ∃ events buf events' buf',
      c.onChunks (Buffer.new size) chunks = some (events, buf) ∧
      c.onChunks (Buffer.new size') chunks' = some (events', buf') ∧
      messages events = messages events' ∧ firstError events = firstError events' ∧
      ∀ before code after, events = before ++ .error code :: after → messages after = [] := by
  obtain ⟨ms, failure, hall⟩ := exists_report hraw herror htag chunks.flatten
  obtain ⟨n, buf, hrun, hpos⟩ := hall size chunks rfl
  obtain ⟨n', buf', hrun', hpos'⟩ := hall size' chunks' hstream.symm
  refine ⟨_, buf, _, buf', hrun, hrun', ?_, ?_, fun _ _ _ h => messages_after_error h⟩
  · rw [messages_report, messages_report]
  · rw [firstError_report ms hpos, firstError_report ms hpos']

/-- A frame, one whose checksum is wrong, and a frame again: in one chunk, and cut inside
    header, tag and checksum. -/
theorem onChunks_of_stream_sampleCodec :
    ∃ events buf events' buf',
      sampleCodec.onChunks (Buffer.new 0)
        [[0, 0, 0, 8, 82, 80, 67, 48, 2, 242, 1, 22, 0, 0, 0, 8, 82, 80, 67, 48, 2, 242, 1, 23,
          0, 0, 0, 8, 82, 80, 67, 48, 2, 242, 1, 22]] = some (events, buf) ∧
      sampleCodec.onChunks (Buffer.new 16)
        [[0, 0, 0, 8, 82], [], [80, 67, 48, 2, 242, 1, 22, 0], [0, 0, 8, 82, 80, 67, 48, 2],
          [242, 1, 23], [0, 0, 0, 8, 82, 80, 67, 48, 2, 242, 1], [22]] = some (events', buf') ∧
      messages events = messages events' ∧ firstError events = firstError events' ∧
      ∀ before code after, events = before ++ .error code :: after → messages after = [] :=
  onChunks_of_stream sampleCodec rfl (fun _ _ => rfl) (by decide) 0 16 _ _ rfl

end ProtobufCodecLite
end Youth.Rpc
