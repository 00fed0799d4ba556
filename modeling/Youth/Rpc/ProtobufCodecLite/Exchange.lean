/-
  Youth.Rpc.ProtobufCodecLite.Exchange

  Two parties that talk in messages over two connections.

  Each party has a `TcpConnection` whose message callback is `onMessage` of the codec, and
  sends with `send` of the codec, from any thread and inside callbacks; the connections are
  joined as in `Youth.Net.TcpConnection.Link`.  So the stream between them is in pieces that
  have nothing to do with the messages, and the decoder works on the input buffer that the
  reads fill.

  `messages_joined` says what gets through: the messages that the other connection has
  handled, one event for each, in order, and no error; all of them, once nothing is under
  way.  For what a connection handles the codec has made (`Spoken`), and what is read and
  not taken off the buffer is the beginning of the next frame (`Understood`).
-/

import Youth.Net.TcpConnection.Link
import Youth.Net.TcpConnection.Sends
import Youth.Rpc.ProtobufCodecLite.Image

namespace Youth.Rpc

open Youth.Lib Youth.Net
open Youth.Net.TcpConnection (Link Call Action)

variable {Msg : Type}

/-- What the user of a connection does.  The buffer is left to the codec: an error callback that
    takes bytes off it is not modelled. -/
inductive Word (Msg : Type)
  /-- `ProtobufCodecLite::send`; `r` is the result of a write at once. -/
  | send (message : Msg) (r : WriteResult)
  | shutdown
  | forceClose
  | forceCloseWithDelay
  | startRead
  | stopRead

/-- A step at one party. -/
inductive Act (Msg : Type)
  | connectEstablished (words : List (Word Msg))
  | call (tid : ThreadId) (w : Word Msg)
  /-- An event, with the result of its read.  `replies` are the words of the callbacks that
      the read leads to, one list for each turn of `onMessage` that calls one. -/
  | handleEvent (revents : Revents) (closeWords : List (Word Msg)) (read : Except Nat (List UInt8))
      (replies : List (List (Word Msg))) (write : WriteResult)
  | swapFunctors
  | runFunctor (r : WriteResult) (words : List (Word Msg))
  | forceCloseTimer
  | removeConnection

/-- A message that is sent fits the decoder's limit, and the connection survives the write. -/
def Word.Proper (c : ProtobufCodecLite Msg) : Word Msg → Prop
  | .send message r => c.Fits message ∧ r.Survives
  | _ => True

/-- So it is with all words of the step, and what `handleWrite` writes goes through. -/
def Act.Proper (c : ProtobufCodecLite Msg) : Act Msg → Prop
  | .connectEstablished words => ∀ w ∈ words, w.Proper c
  | .call _ w => w.Proper c
  | .handleEvent _ closeWords _ replies write =>
    (∀ w ∈ closeWords, w.Proper c) ∧ (∀ words ∈ replies, ∀ w ∈ words, w.Proper c) ∧
      ∃ n, write = .ok n
  | .runFunctor r words => r.Survives ∧ ∀ w ∈ words, w.Proper c
  | _ => True

namespace ProtobufCodecLite

variable (c : ProtobufCodecLite Msg)

/-- `send` fills a buffer of its own and hands it to the connection. -/
def call : Word Msg → Call
  | .send message r =>
    .sendBuffer (c.fillEmptyBuffer (Buffer.new Buffer.kInitialSize) message).val r
  | .shutdown => .shutdown
  | .forceClose => .forceClose
  | .forceCloseWithDelay => .forceCloseWithDelay
  | .startRead => .startRead
  | .stopRead => .stopRead

/-- The calls in the turns of a loop: those of the callback, and then the frame is taken off
    the buffer; in the last turn those of the error callback, if it is called. -/
def turnCalls (turn : Buffer → Turn (CodecEvent Msg) Buffer) :
    Nat → Buffer → List (List (Word Msg)) → List Call
  | 0, _, _ => []
  | fuel + 1, buf, replies =>
    match turn buf with
    | .next _ rest => (replies.headD []).map c.call ++
        .retrieve (buf.readableBytes - rest.readableBytes) :: turnCalls turn fuel rest replies.tail
    | .stop events _ => if events.isEmpty then [] else (replies.headD []).map c.call

/-- The calls that a read leads to, of the message callback or the connection callback. -/
def readCalls (buf : Buffer) (read : Except Nat (List UInt8)) (replies : List (List (Word Msg))) :
    List Call :=
  match read with
  | .ok (_ :: _) =>
    let buf := (buf.readFd read).val.2
    c.turnCalls c.onMessageTurn (buf.readableBytes + 1) buf replies
  | _ => (replies.headD []).map c.call

/-- The step of a connection with this input buffer. -/
def action (buf : Buffer) : Act Msg → Action
  | .connectEstablished words => .connectEstablished (words.map c.call)
  | .call tid w => .call tid (c.call w)
  | .handleEvent revents closeWords read replies write => .handleEvent revents
      { closeCalls := closeWords.map c.call, read := read,
        readCalls := c.readCalls buf read replies, write := write }
  | .swapFunctors => .swapFunctors
  | .runFunctor r words => .runFunctor r (words.map c.call)
  | .forceCloseTimer => .forceCloseTimer
  | .removeConnection => .removeConnection

/-- The events of `onMessage` in a step, if it is called. -/
def hears (buf : Buffer) : Act Msg → Option (List (CodecEvent Msg))
  | .handleEvent revents _ (.ok (b :: bytes)) _ _ =>
    if TcpConnection.reads revents then
      (c.onMessage (buf.readFd (.ok (b :: bytes))).val.2).map Prod.fst
    else some []
  | _ => some []

/-! ## What the calls are -/

/-- What the codec makes of a message that fits. -/
def IsFrame (bytes : List UInt8) : Prop := ∃ m, c.Fits m ∧ bytes = c.frame m

variable {c} {buf b rest : Buffer} {replies : List (List (Word Msg))}

theorem call_survives {w : Word Msg} (hw : w.Proper c) : (c.call w).Survives := by
  cases w with
  | send message r => exact hw.2
  | _ => trivial

theorem call_sends (hlaw : c.pb.Lawful) {w : Word Msg} (hw : w.Proper c) :
    (c.call w).Sends c.IsFrame := by
  cases w with
  | send message r =>
      refine ⟨message, hw.1, ?_⟩
      exact (fillEmptyBuffer_readable hlaw hw.1 (Buffer.new_inv _) (Buffer.readable_new _)
        (Nat.le_refl _)).2
  | _ => trivial

theorem calls_leaveInput (words : List (Word Msg)) :
    (words.map c.call).all Call.leavesInput = true := by
  rw [List.all_map, List.all_eq_true]
  intro w _
  cases w <;> rfl

section Calls

variable {Q : Call → Prop} (hretrieve : ∀ n, Q (.retrieve n))
  (hwords : ∀ words ∈ replies, ∀ w ∈ words, Q (c.call w))

include hwords

theorem headD_calls : ∀ k ∈ (replies.headD []).map c.call, Q k := by
  cases replies with
  | nil => exact List.forall_mem_nil Q
  | cons words replies => exact List.forall_mem_map.mpr (hwords words List.mem_cons_self)

include hretrieve

theorem turnCalls_all (turn : Buffer → Turn (CodecEvent Msg) Buffer) (fuel : Nat) :
    ∀ k ∈ c.turnCalls turn fuel buf replies, Q k := by
  induction fuel generalizing buf replies with
  | zero => exact List.forall_mem_nil Q
  | succ fuel ih =>
      have htail : ∀ words ∈ replies.tail, ∀ w ∈ words, Q (c.call w) :=
        fun words hmem => hwords words (List.mem_of_mem_tail hmem)
      rw [turnCalls]
      split
      · intro k hk
        rcases List.mem_append.mp hk with hhead | hrest
        · exact headD_calls hwords k hhead
        · rcases List.mem_cons.mp hrest with rfl | hlater
          · exact hretrieve _
          · exact ih htail k hlater
      · split
        · exact List.forall_mem_nil Q
        · exact headD_calls hwords

theorem readCalls_all (read : Except Nat (List UInt8)) :
    ∀ k ∈ c.readCalls buf read replies, Q k := by
  unfold readCalls
  split
  · exact turnCalls_all hretrieve hwords _ _
  · exact headD_calls hwords

end Calls

theorem action_survives {a : Act Msg} (ha : a.Proper c) : (c.action buf a).Survives := by
  have hall {words : List (Word Msg)} (hwords : ∀ w ∈ words, w.Proper c) :
      ∀ k ∈ words.map c.call, k.Survives :=
    List.forall_mem_map.mpr fun w hw => call_survives (hwords w hw)
  cases a with
  | connectEstablished words => exact hall ha
  | call tid w => exact call_survives ha
  | handleEvent revents closeWords read replies write =>
      obtain ⟨hclose, hreplies, hwrite⟩ := ha
      refine ⟨hall hclose, ?_, hwrite⟩
      exact readCalls_all (Q := Call.Survives) (fun n => trivial)
        (fun words hmem w hw => call_survives (hreplies words hmem w hw)) read
  | runFunctor r words => exact ⟨ha.1, hall ha.2⟩
  | _ => trivial

theorem action_sends (hlaw : c.pb.Lawful) {a : Act Msg} (ha : a.Proper c) :
    (c.action buf a).Sends c.IsFrame := by
  have hall {words : List (Word Msg)} (hwords : ∀ w ∈ words, w.Proper c) :
      ∀ k ∈ words.map c.call, k.Sends c.IsFrame :=
    List.forall_mem_map.mpr fun w hw => call_sends hlaw (hwords w hw)
  cases a with
  | connectEstablished words => exact hall ha
  | call tid w => exact call_sends hlaw ha
  | handleEvent revents closeWords read replies write =>
      obtain ⟨hclose, hreplies, -⟩ := ha
      refine ⟨hall hclose, ?_⟩
      exact readCalls_all (Q := Call.Sends c.IsFrame) (fun n => trivial)
        (fun words hmem w hw => call_sends hlaw (hreplies words hmem w hw)) read
  | runFunctor r words => exact hall ha.2
  | _ => trivial

/-! ## What the calls leave in the input buffer -/

/-- A loop that ends without an error ends where it has found less than a frame. -/
theorem onMessageTurn_stop {made : List (CodecEvent Msg)}
    (hstop : c.onMessageTurn buf = .stop made b) (hno : ∀ code, .error code ∉ made) : made = [] ∧ b = buf := by
  by_cases hframe : c.HasFrame buf
  · rw [onMessageTurn_of_hasFrame hframe, onFrame] at hstop
    split at hstop
    · cases hstop
    · split at hstop
      · cases hstop
      · cases hstop
        exact absurd (List.mem_append_right _ (List.mem_singleton_self _)) (hno _)
  · rcases onMessageTurn_of_not_hasFrame hframe with heq | heq
    · rw [heq] at hstop
      cases hstop
      exact ⟨rfl, rfl⟩
    · rw [heq] at hstop
      cases hstop
      exact absurd (List.mem_singleton_self _) (hno _)

/-- The calls under `onMessage` leave the buffer as the loop does. -/
theorem turnCalls_input {fuel : Nat} {events : List (CodecEvent Msg)} {s : TcpConnection.World}
    (h : buf.Inv) (hloop : loop c.onMessageTurn fuel buf = some (events, rest))
    (hno : ∀ code, .error code ∉ events) (hs : s.conn.inputBuffer = buf) :
    ((c.turnCalls c.onMessageTurn fuel buf replies).foldl (TcpConnection.call loopThread)
      s).conn.inputBuffer = rest := by
  induction fuel generalizing buf events replies s with
  | zero => exact nomatch (show none = some (events, rest) from hloop)
  | succ fuel ih =>
      rcases hturn : c.onMessageTurn buf with ⟨made, b⟩ | ⟨made, b⟩
      · rw [loop_stop hturn] at hloop
        cases hloop
        obtain ⟨rfl, rfl⟩ := onMessageTurn_stop hturn hno
        rw [turnCalls, hturn]
        exact hs
      · rw [loop_next hturn] at hloop
        obtain ⟨q, hq, heq⟩ := Option.map_eq_some_iff.mp hloop
        cases heq
        obtain ⟨⟨-, -, hle⟩, hb, -⟩ := onMessageTurn_next hturn
        have hy := Buffer.retrieve_yields h hle
        have hinv := hy.inv
        have hreadable := hy.readable
        rw [← hb] at hinv hreadable
        -- the frame is what the buffer has become shorter by
        have hlen : buf.readableBytes - b.readableBytes =
            sizeOfInt (kHeaderLen + buf.peekInt32.val) := by
          have hold := Buffer.length_readable h
          have hnew := Buffer.length_readable hinv
          rw [hreadable, List.length_drop] at hnew
          omega
        have hwords := TcpConnection.calls_follows (calls_leaveInput (c := c) (replies.headD [])) s
        have hinput := hwords.input.trans hs
        rw [turnCalls, hturn]
        dsimp only
        rw [List.foldl_append, List.foldl_cons]
        apply ih hinv hq
        · exact fun code hcode => hno code (List.mem_append_right _ hcode)
        · rw [TcpConnection.call]
          dsimp only
          rw [hinput, hlen]
          exact hb.symm

/-! ## What a party has understood -/

/-- The messages `done` were heard, and of the next ones, `todo`, the buffer holds less than a
    frame. -/
structure Understood (c : ProtobufCodecLite Msg) (received : List UInt8)
    (heard : List (CodecEvent Msg)) (buf : Buffer) (done todo : List Msg) : Prop where
  heard : heard = done.map .message
  received : received = (done.map c.frame).flatten ++ buf.readable
  stalled : c.Stalled todo buf
  fits : ∀ m ∈ done ++ todo, c.Fits m

variable {received : List UInt8} {heard : List (CodecEvent Msg)} {done todo : List Msg}

theorem flatten_frames (done todo : List Msg) : ((done ++ todo).map c.frame).flatten =
    (done.map c.frame).flatten ++ (todo.map c.frame).flatten := by
  rw [List.map_append, List.flatten_append]

/-- Messages that come later stand behind the others. -/
theorem Understood.grow (h : Understood c received heard buf done todo)
    (hwhole : received <+: ((done ++ todo).map c.frame).flatten) {more : List Msg}
    (hmore : ∀ m ∈ more, c.Fits m) : Understood c received heard buf done (todo ++ more) where
  heard := h.heard
  received := h.received
  stalled := by
    refine ⟨h.stalled.inv, fun m hm => ?_⟩
    cases todo with
    | nil =>
        -- nothing was left over
        have hlen := hwhole.length_le
        have hread := Buffer.length_readable h.stalled.inv
        rw [h.received, flatten_frames, List.length_append, List.length_append] at hlen
        rw [length_frame]
        simp only [List.map_nil, List.flatten_nil, List.length_nil] at hlen
        omega
    | cons first todo => exact h.stalled.short m hm
  fits m hm := by
    rw [← List.append_assoc] at hm
    exact (List.mem_append.mp hm).elim (h.fits m) (hmore m)

/-- Bytes that are read: `onMessage` hears the messages that they complete. -/
theorem Understood.read (h : Understood c received heard buf done todo) (hlaw : c.pb.Lawful)
    (hraw : c.rawCb = none) {bytes : List UInt8} (hne : bytes ≠ []) (hinv : b.Inv)
    (hreadable : b.readable = buf.readable ++ bytes)
    (hwhole : received ++ bytes <+: ((done ++ todo).map c.frame).flatten) :
    ∃ ms later rest, todo = ms ++ later ∧ c.onMessage b = some (ms.map .message, rest) ∧
      Understood c (received ++ bytes) (heard ++ ms.map .message) rest (done ++ ms) later := by
  obtain ⟨more, hmore⟩ := hwhole
  have hframes : b.readable ++ more = (todo.map c.frame).flatten := by
    rw [h.received, flatten_frames, List.append_assoc, List.append_assoc] at hmore
    rw [hreadable, List.append_assoc]
    exact List.append_cancel_left hmore
  have hfits : ∀ m ∈ todo, c.Fits m := fun m hm => h.fits m (List.mem_append_right _ hm)
  -- there is a message, so the tag is short
  have htag : c.tag.length + 8 < 2 ^ 31 := by
    cases todo with
    | nil =>
        rw [hreadable] at hframes
        have hnil := (List.append_eq_nil_iff.mp (List.append_eq_nil_iff.mp hframes).1).2
        exact absurd hnil hne
    | cons m todo =>
        have hbody := (hfits m List.mem_cons_self).length_body_le
        rw [length_body] at hbody
        omega
  obtain ⟨ms, later, rest, rfl, hloop, hstalled, hleft⟩ :=
    loop_onMessageTurn_frames hraw htag hlaw hinv hfits hframes (Nat.lt_succ_self _)
  refine ⟨ms, later, rest, rfl, hloop, ?_, ?_, hstalled, ?_⟩
  · rw [h.heard, List.map_append]
  · rw [← List.append_assoc, flatten_frames, ← hleft, ← List.append_assoc] at hmore
    exact List.append_cancel_right hmore
  · rw [List.append_assoc]
    exact h.fits

/-- A step of the connection, and what the codec hears in it. -/
theorem Understood.step {s t : TcpConnection.World} {a : Act Msg} {events : List (CodecEvent Msg)}
    (h : Understood c received heard s.conn.inputBuffer done todo) (hlaw : c.pb.Lawful)
    (hraw : c.rawCb = none) (hstep : TcpConnection.step s (c.action s.conn.inputBuffer a) = some t)
    (hhears : c.hears s.conn.inputBuffer a = some events)
    (hwhole : received ++ TcpConnection.bytesOf (c.action s.conn.inputBuffer a).read? <+:
      ((done ++ todo).map c.frame).flatten) :
    ∃ done' todo', done' ++ todo' = done ++ todo ∧
      Understood c (received ++ TcpConnection.bytesOf (c.action s.conn.inputBuffer a).read?)
        (heard ++ events) t.conn.inputBuffer done' todo' := by
  -- a step in which nothing comes in
  have hquiet {rest : Buffer} (hinv : rest.Inv)
      (hreadable : rest.readable = s.conn.inputBuffer.readable) :
      ∃ done' todo', done' ++ todo' = done ++ todo ∧
        Understood c (received ++ []) (heard ++ []) rest done' todo' := by
    refine ⟨done, todo, rfl, ?_, ?_, ⟨hinv, fun m hm => ?_⟩, h.fits⟩
    · rw [List.append_nil]
      exact h.heard
    · rw [List.append_nil, hreadable]
      exact h.received
    · rw [← Buffer.length_readable hinv, hreadable, Buffer.length_readable h.stalled.inv]
      exact h.stalled.short m hm
  have hleaves (hl : (c.action s.conn.inputBuffer a).leavesInput = true)
      (hnone : (c.action s.conn.inputBuffer a).read? = none) (hevents : events = []) :
      ∃ done' todo', done' ++ todo' = done ++ todo ∧
        Understood c (received ++ TcpConnection.bytesOf (c.action s.conn.inputBuffer a).read?)
          (heard ++ events) t.conn.inputBuffer done' todo' := by
    rw [hnone, hevents, (TcpConnection.step_follows hl hstep).input]
    exact hquiet h.stalled.inv rfl
  cases a with
  | connectEstablished words =>
      exact hleaves (calls_leaveInput words) rfl (Option.some.inj hhears).symm
  | call tid w =>
      apply hleaves _ rfl (Option.some.inj hhears).symm
      cases w <;> rfl
  | swapFunctors => exact hleaves rfl rfl (Option.some.inj hhears).symm
  | runFunctor r words => exact hleaves (calls_leaveInput words) rfl (Option.some.inj hhears).symm
  | forceCloseTimer => exact hleaves rfl rfl (Option.some.inj hhears).symm
  | removeConnection => exact hleaves rfl rfl (Option.some.inj hhears).symm
  | handleEvent revents closeWords read replies write =>
      have hclose := calls_leaveInput (c := c) closeWords
      by_cases hreads : TcpConnection.reads revents
      · have hresult : (c.action s.conn.inputBuffer
            (.handleEvent revents closeWords read replies write)).read? = some read := if_pos hreads
        rw [hresult] at hwhole ⊢
        obtain ⟨u, rfl, hu⟩ := TcpConnection.step_reads hreads hclose h.stalled.inv hstep
        have hinput : (u.flushed revents write).conn.inputBuffer = u.conn.inputBuffer :=
          (TcpConnection.flushed_follows write).input
        have hhung : (s.hungUp revents (closeWords.map c.call)).conn.inputBuffer =
            s.conn.inputBuffer := (TcpConnection.hungUp_follows hclose).input
        dsimp only at hu
        show ∃ done' todo', done' ++ todo' = done ++ todo ∧ Understood c _ (heard ++ events)
          (u.flushed revents write).conn.inputBuffer done' todo'
        rw [hinput]
        rcases read with errno | _ | ⟨byte, bytes⟩
        · -- the read has failed
          obtain rfl : [] = events := Option.some.inj hhears
          rw [hu.input, hhung]
          exact hquiet h.stalled.inv rfl
        · -- the end of the stream
          obtain rfl : [] = events := Option.some.inj hhears
          obtain ⟨hinv, hreadable, rfl⟩ := hu
          have hclosed := TcpConnection.handleClose_follows (s := (s.hungUp revents
            (closeWords.map c.call)).received (.ok []))
            (calls_leaveInput (c := c) (replies.headD []))
          have hcalls : c.readCalls s.conn.inputBuffer (.ok []) replies =
              (replies.headD []).map c.call := rfl
          rw [hcalls, hclosed.input]
          exact hquiet hinv hreadable
        · obtain ⟨hinv, hreadable, hcallback⟩ := hu
          have hbuf : ((s.hungUp revents (closeWords.map c.call)).received
              (.ok (byte :: bytes))).conn.inputBuffer =
              (s.conn.inputBuffer.readFd (.ok (byte :: bytes))).val.2 := by
            rw [← hhung]
            rfl
          rw [hbuf] at hinv hreadable
          obtain ⟨ms, later, rest, rfl, hmessage, hunderstood⟩ :=
            h.read hlaw hraw (List.cons_ne_nil byte bytes) hinv hreadable hwhole
          obtain rfl : ms.map .message = events := by
            have hheard : (c.onMessage (s.conn.inputBuffer.readFd (.ok (byte :: bytes))).val.2).map
                Prod.fst = some events := by
              rw [← hhears]
              exact (if_pos hreads).symm
            rw [hmessage] at hheard
            exact Option.some.inj hheard
          refine ⟨done ++ ms, later, List.append_assoc .., ?_⟩
          have hcalls : c.readCalls s.conn.inputBuffer (.ok (byte :: bytes)) replies =
              c.turnCalls c.onMessageTurn
                ((s.conn.inputBuffer.readFd (.ok (byte :: bytes))).val.2.readableBytes + 1)
                (s.conn.inputBuffer.readFd (.ok (byte :: bytes))).val.2 replies := rfl
          have hcalled : (((s.hungUp revents (closeWords.map c.call)).received
              (.ok (byte :: bytes))).callback .message).conn.inputBuffer =
              (s.conn.inputBuffer.readFd (.ok (byte :: bytes))).val.2 := hbuf
          rw [onMessage] at hmessage
          rw [hcallback, hcalls, TcpConnection.userCallback,
            turnCalls_input hinv hmessage (by simp) hcalled]
          exact hunderstood
      · apply hleaves
        · show (!decide (TcpConnection.reads revents) && _) = true
          rw [decide_eq_false hreads, Bool.not_false, Bool.true_and]
          exact hclose
        · exact if_neg hreads
        · rcases read with errno | _ | ⟨byte, bytes⟩
          · exact (Option.some.inj hhears).symm
          · exact (Option.some.inj hhears).symm
          · have hnone : c.hears s.conn.inputBuffer (.handleEvent revents closeWords
                (.ok (byte :: bytes)) replies write) = some [] := if_neg hreads
            rw [hnone] at hhears
            exact (Option.some.inj hhears).symm

end ProtobufCodecLite

/-- Two joined connections whose input goes through the codec. -/
structure Exchange (Msg : Type) where
  link : Link
  /-- The events of the codec at each party. -/
  heard : Bool → List (CodecEvent Msg) := fun _ => []

namespace Exchange

open ProtobufCodecLite
open Youth.Net.TcpConnection (AllSent)

variable (c : ProtobufCodecLite Msg)

def input (x : Exchange Msg) (y : Bool) : Buffer := (x.link.ends y).conn.inputBuffer

def step (x : Exchange Msg) : Bool × Act Msg → Option (Exchange Msg)
  | (y, a) =>
    (Link.step x.link (y, c.action (x.input y) a)).bind fun link =>
      (c.hears (x.input y) a).map fun events =>
        { link := link, heard := Function.update x.heard y (x.heard y ++ events) }

/-- Two new connections. -/
def start (self fd : Bool → Nat) (epoll : Bool → Epoll) (wc hw : Bool → Bool) (mark : Bool → Nat) :
    Exchange Msg where
  link := Link.start self fd epoll wc hw mark

/-! ## The invariant -/

structure Conversing (x : Exchange Msg) : Prop where
  joined : Link.Joined x.link
  spoken : ∀ y, AllSent c.IsFrame (x.link.ends y)
  understood : ∀ y, ∃ done todo,
    (x.link.ends !y).handled.map Prod.snd = (done ++ todo).map c.frame ∧
    Understood c (x.link.received y) (x.heard y) (x.input y) done todo

variable {c} {x x' : Exchange Msg} {y : Bool}

theorem step_cases {a : Act Msg} (h : step c x (y, a) = some x') :
    ∃ events, Link.step x.link (y, c.action (x.input y) a) = some x'.link ∧
      c.hears (x.input y) a = some events ∧
      x'.heard = Function.update x.heard y (x.heard y ++ events) := by
  obtain ⟨link, hlink, h⟩ := Option.bind_eq_some_iff.mp h
  obtain ⟨events, hevents, rfl⟩ := Option.map_eq_some_iff.mp h
  exact ⟨events, hlink, hevents, rfl⟩

/-- Frames that were sent are frames of messages. -/
theorem exists_messages {sent : List (ThreadId × List UInt8)} (h : ∀ p ∈ sent, c.IsFrame p.2) :
    ∃ ms : List Msg, (∀ m ∈ ms, c.Fits m) ∧ sent.map Prod.snd = ms.map c.frame := by
  induction sent with
  | nil => exact ⟨[], by simp, rfl⟩
  | cons p sent ih =>
      obtain ⟨⟨m, hfit, hframe⟩, hrest⟩ := List.forall_mem_cons.mp h
      obtain ⟨ms, hfits, hms⟩ := ih hrest
      refine ⟨m :: ms, List.forall_mem_cons.mpr ⟨hfit, hfits⟩, ?_⟩
      rw [List.map_cons, List.map_cons, hframe, hms]

theorem flatMap_handled {s : TcpConnection.World} {ms : List Msg}
    (h : s.handled.map Prod.snd = ms.map c.frame) :
    s.handled.flatMap Prod.snd = (ms.map c.frame).flatten := by
  rw [List.flatMap_def, h]

/-- What an end has read is the beginning of the frames that the other one has handled. -/
theorem received_prefix {l : Link} (hjoined : Link.Joined l) {ms : List Msg}
    (h : (l.ends !y).handled.map Prod.snd = ms.map c.frame) :
    l.received y <+: (ms.map c.frame).flatten := by
  rw [← flatMap_handled h]
  exact (hjoined.received y).trans (hjoined.flows !y).2.out

theorem step_conversing (hlaw : c.pb.Lawful) (hraw : c.rawCb = none) {p : Bool × Act Msg}
    (hp : p.2.Proper c) (h : Conversing c x) (hstep : step c x p = some x') : Conversing c x' := by
  obtain ⟨y, a⟩ := p
  obtain ⟨events, hlink, hhears, hheard⟩ := step_cases hstep
  have hjoined : Link.Joined x'.link := Link.step_joined (action_survives hp) h.joined hlink
  obtain ⟨t, ht, -, -, hstepAt⟩ := Link.step_cases hlink
  dsimp only at ht hstepAt
  have hgrows := TcpConnection.step_grows ht
  have hother : (!y) ≠ y := by simp
  -- the two ends of the new state
  have hends : x'.link.ends y = t := by
    rw [hstepAt]
    exact Function.update_self ..
  have hends' : x'.link.ends (!y) = x.link.ends (!y) := by
    rw [hstepAt]
    exact Function.update_of_ne hother ..
  have hreceived : x'.link.received y =
      x.link.received y ++ TcpConnection.bytesOf (c.action (x.input y) a).read? := by
    rw [hstepAt]
    exact Function.update_self ..
  have hreceived' : x'.link.received (!y) = x.link.received (!y) := by
    rw [hstepAt]
    exact Function.update_of_ne hother ..
  have hspoken : ∀ z, AllSent c.IsFrame (x'.link.ends z) := by
    intro z
    by_cases hz : z = y
    · rw [hz, hends]
      exact TcpConnection.step_allSent (action_sends hlaw hp) (h.spoken y) ht
    · rw [Bool.eq_not.mpr hz, hends']
      exact h.spoken _
  refine ⟨hjoined, hspoken, fun z => ?_⟩
  by_cases hz : z = y
  · -- the party of the step reads, and the other one has handled the same
    subst hz
    obtain ⟨done, todo, hhandled, hunderstood⟩ := h.understood z
    rw [← hends'] at hhandled
    have hwhole := received_prefix hjoined hhandled
    rw [hreceived] at hwhole
    obtain ⟨done', todo', hsame, hnext⟩ := hunderstood.step hlaw hraw ht hhears hwhole
    have hinput : x'.input z = t.conn.inputBuffer := by rw [input, hends]
    refine ⟨done', todo', by rw [hsame, hhandled], ?_⟩
    rw [hreceived, hheard, Function.update_self, hinput]
    exact hnext
  · -- the other party has read the same, and more may be handled for it
    obtain rfl : z = !y := Bool.eq_not.mpr hz
    obtain ⟨done, todo, hhandled, hunderstood⟩ := h.understood !y
    rw [Bool.not_not] at hhandled
    obtain ⟨extra, hextra⟩ := hgrows.handled
    have hframes : ∀ p ∈ extra, c.IsFrame p.2 := by
      intro p hmem
      have hsent := (hjoined.flows y).1.sent_of_handled (p := p)
      rw [hends, ← hextra] at hsent
      have hall := hspoken y
      rw [hends] at hall
      exact hall p (hsent (List.mem_append_right _ hmem))
    obtain ⟨more, hfits, hmore⟩ := exists_messages hframes
    refine ⟨done, todo ++ more, ?_, ?_⟩
    · rw [Bool.not_not, hends, ← hextra, List.map_append, hmore, hhandled, ← List.append_assoc]
      exact List.map_append.symm
    · have hwhole : x.link.received (!y) <+: ((done ++ todo).map c.frame).flatten := by
        apply received_prefix h.joined
        rw [Bool.not_not]
        exact hhandled
      rw [hreceived', hheard, Function.update_of_ne hother, input, hends']
      exact hunderstood.grow hwhole hfits

theorem start_conversing (self fd : Bool → Nat) (epoll : Bool → Epoll) (wc hw : Bool → Bool)
    (mark : Bool → Nat) : Conversing c (start self fd epoll wc hw mark) where
  joined := Link.start_joined self fd epoll wc hw mark
  spoken y p hp := nomatch hp
  understood y := by
    have hempty : (Buffer.new Buffer.kInitialSize).readable = [] := Buffer.readable_new _
    refine ⟨[], [], rfl, rfl, ?_, ⟨Buffer.new_inv _, by simp⟩, by simp⟩
    show [] = [] ++ (Buffer.new Buffer.kInitialSize).readable
    rw [hempty, List.append_nil]

/-! ## Runs -/

/-- Nothing is left over when all that was handled has been read. -/
theorem todo_eq_nil {received : List UInt8} {heard : List (CodecEvent Msg)} {buf : Buffer}
    {done todo : List Msg} (h : Understood c received heard buf done todo)
    (hall : received = ((done ++ todo).map c.frame).flatten) : todo = [] := by
  rw [h.received, flatten_frames] at hall
  have hreadable : buf.readable = (todo.map c.frame).flatten := List.append_cancel_left hall
  cases todo with
  | nil => rfl
  | cons m todo =>
      have hshort := h.stalled.short m rfl
      have hlen := Buffer.length_readable h.stalled.inv
      rw [hreadable, List.map_cons, List.flatten_cons, List.length_append] at hlen
      omega

/-- Nothing is left over in the buffer between two messages. -/
theorem readable_eq_nil {received : List UInt8} {heard : List (CodecEvent Msg)} {buf : Buffer}
    {done todo : List Msg} (h : Understood c received heard buf done todo) {k : Nat}
    (hall : received = (((done ++ todo).take k).map c.frame).flatten) : buf.readable = [] := by
  have hlen := Buffer.length_readable h.stalled.inv
  rw [h.received, List.take_append, flatten_frames] at hall
  by_cases hk : k ≤ done.length
  · -- not more than the messages that were heard
    rw [show k - done.length = 0 by omega, List.take_zero, List.map_nil, List.flatten_nil,
      List.append_nil] at hall
    have hle : ((done.take k).map c.frame).flatten.length ≤ (done.map c.frame).flatten.length := by
      have hsplit := congrArg List.length (flatten_frames (c := c) (done.take k) (done.drop k))
      rw [List.take_append_drop, List.length_append] at hsplit
      omega
    have hsum := congrArg List.length hall
    rw [List.length_append] at hsum
    apply List.eq_nil_of_length_eq_zero
    omega
  · rw [List.take_of_length_le (by omega)] at hall
    have hreadable := List.append_cancel_left hall
    obtain ⟨j, hj⟩ : ∃ j, k - done.length = j + 1 := ⟨k - done.length - 1, by omega⟩
    rw [hj] at hreadable
    cases todo with
    | nil => exact hreadable
    | cons m todo =>
        -- a whole frame cannot be left
        have hshort := h.stalled.short m rfl
        rw [hreadable, List.take_succ_cons, List.map_cons, List.flatten_cons,
          List.length_append] at hlen
        omega

/-- In every run in which the messages fit and the writes go through, in part at least, or, in
    `sendInLoop`, are only refused: a party hears the messages that the other connection has handled, from the
    first one on, each once and in order, and no error; those of a thread are handled in the
    order in which it sent them.  While the other connection is up, all that were handled have
    been heard once nothing is under way or buffered, and an end of the stream leaves nothing
    of a message in the input buffer. -/
theorem messages_joined (c : ProtobufCodecLite Msg) (hlaw : c.pb.Lawful) (hraw : c.rawCb = none)
    (self fd : Bool → Nat) (epoll : Bool → Epoll) (wc hw : Bool → Bool) (mark : Bool → Nat)
    (acts : List (Bool × Act Msg)) (hproper : ∀ p ∈ acts, p.2.Proper c) (x : Exchange Msg)
    (hrun : run (step c) (start self fd epoll wc hw mark) acts = some x) (y : Bool) :
    ∃ done todo : List Msg,
      (x.link.ends !y).handled.map Prod.snd = (done ++ todo).map c.frame ∧
      x.heard y = done.map .message ∧
      (∀ tid, ((x.link.ends !y).handled ++ (x.link.ends !y).queuedSends).filter (·.1 = tid) =
        (x.link.ends !y).sent.filter (·.1 = tid)) ∧
      ((x.link.ends !y).conn.state ≠ .kDisconnected →
        (x.link.underway y = [] → (x.link.ends !y).conn.outputBuffer.readable = [] → todo = []) ∧
        (x.link.ended y = true → (x.input y).readable = [])) := by
  have h : Conversing c x := run_invariant_of (P := fun p => p.2.Proper c)
    (fun _ _ _ hp hx hstep => step_conversing hlaw hraw hp hx hstep) hproper
    (start_conversing self fd epoll wc hw mark) hrun
  obtain ⟨hstream, hout⟩ := h.joined.flows !y
  obtain ⟨done, todo, hhandled, hunderstood⟩ := h.understood y
  have hbytes := flatMap_handled hhandled
  refine ⟨done, todo, hhandled, hunderstood.heard, hstream.order,
    fun halive => ⟨?_, fun hend => ?_⟩⟩
  · intro hnone hbuffered
    apply todo_eq_nil hunderstood
    rw [← hbytes, ← hstream.bytes halive, hbuffered, List.append_nil]
    exact Link.eq_of_prefix_of_drop (h.joined.received y) hnone
  · -- what was written before the connection was shut is whole messages
    obtain ⟨hshut, hall⟩ := h.joined.ended y hend halive
    obtain ⟨n, more, hn⟩ := List.exists_cons_of_ne_nil hshut
    obtain ⟨hle, first, ⟨last, hlast⟩, htake⟩ := hout.whole halive n (by rw [hn]; rfl)
    have hlen : (x.link.ends !y).written.length ≤ n := by
      refine of_decide_eq_true (List.all_eq_true.mp (h.joined.accepted !y) n ?_)
      rw [hn]
      exact List.mem_cons_self
    rw [List.take_of_length_le hlen] at htake
    refine readable_eq_nil (k := first.length) hunderstood ?_
    have hfirst : first.map Prod.snd = ((done ++ todo).take first.length).map c.frame := by
      rw [List.map_take, ← hhandled, ← hlast, List.map_append, List.take_left' (List.length_map _)]
    rw [hall, htake, List.flatMap_def, hfirst]

/-- A message whose frame goes out in two parts, and the answer that its callback sends. -/
def questionAnswered : List (Bool × Act (List UInt8)) :=
  [(true, .connectEstablished []), (false, .connectEstablished []),
   (true, .call loopThread (.send [7] (.ok 5))),
   (false, .handleEvent { epollin := true } [] (.ok [0, 0, 0, 9, 82]) [] (.ok 0)),
   (true, .handleEvent { epollout := true } [] (.error 0) [] (.ok 8)),
   (false, .handleEvent { epollin := true } [] (.ok [80, 67, 48, 7, 4, 15, 1, 29])
     [[.send [] (.ok 12)]] (.ok 0)),
   (true, .handleEvent { epollin := true } [] (.ok [0, 0, 0, 8, 82, 80, 67, 48, 2, 242, 1, 22]) []
     (.ok 0))]

theorem questionAnswered_proper : ∀ p ∈ questionAnswered, p.2.Proper sampleCodec := by
  have hfits : sampleCodec.Fits [7] ∧ sampleCodec.Fits [] := by
    unfold Fits
    decide
  simp [questionAnswered, Act.Proper, Word.Proper, WriteResult.Survives, hfits]

theorem messages_joined_questionAnswered :
    ∃ x, run (step sampleCodec) (start (fun _ => 1) (fun _ => 3) (fun _ => Epoll.empty)
        (fun _ => true) (fun _ => true) fun _ => 4) questionAnswered = some x ∧
      x.heard false = [.message [7]] ∧ x.heard true = [.message []] ∧
      ∃ done todo : List (List UInt8),
        (x.link.ends true).handled.map Prod.snd = (done ++ todo).map sampleCodec.frame ∧
        x.heard false = done.map .message := by
  have hsome : ((run (step sampleCodec) (start (fun _ => 1) (fun _ => 3) (fun _ => Epoll.empty)
      (fun _ => true) (fun _ => true) fun _ => 4) questionAnswered).map fun x =>
        decide (x.heard false = [.message [7]] ∧ x.heard true = [.message []])) = some true := by
    decide +kernel
  obtain ⟨x, hrun, hheard⟩ := Option.map_eq_some_iff.mp hsome
  obtain ⟨hfalse, htrue⟩ := of_decide_eq_true hheard
  obtain ⟨done, todo, hhandled, hdone, -⟩ := messages_joined sampleCodec
    ⟨fun _ => rfl, fun _ => rfl⟩ rfl _ _ _ _ _ _ questionAnswered questionAnswered_proper x hrun false
  exact ⟨x, hrun, hfalse, htrue, done, todo, hhandled, hdone⟩

end Exchange
end Youth.Rpc
