/-
  Youth.Net.TcpConnection.OutputStream

  Nothing of the output is lost, doubled or mixed.

  A message reaches the socket on one of three ways: written at once, appended to
  the output buffer after a short or refused write, or drained from there when the
  descriptor is writable.  `Stream` is what makes them one stream: while the
  connection is not down, the bytes written and those buffered are the messages
  handled so far, and the channel has write interest exactly while there are bytes
  buffered (so the direct way is only taken with an empty buffer).  Sends of other
  threads wait in the functor queue, in push order.
-/

import Youth.Lib.Machine
import Youth.Net.TcpConnection.Basic

namespace Youth.Net

/-- A result of `::write` in `sendInLoop` after which the connection goes on: a count,
    or a failure other than `EPIPE` and `ECONNRESET`. -/
def WriteResult.Survives (r : WriteResult) : Prop :=
  r ≠ .error .EPIPE ∧ r ≠ .error .ECONNRESET

instance (r : WriteResult) : Decidable r.Survives := by
  unfold WriteResult.Survives
  infer_instance

/-- The message of a queued send. -/
def Functor.send? : Functor → Option (ThreadId × List UInt8)
  | .sendInLoop tid message => some (tid, message)
  | _ => none

namespace TcpConnection

open Youth.Lib

def Call.Survives : Call → Prop
  | .send _ r => r.Survives
  | .sendBuffer _ r => r.Survives
  | _ => True

/-- Every `::write` of the step goes through or, in `sendInLoop`, is only refused. -/
def Action.Survives : Action → Prop
  | .connectEstablished calls => ∀ c ∈ calls, c.Survives
  | .call _ c => c.Survives
  | .handleEvent _ i =>
    (∀ c ∈ i.closeCalls, c.Survives) ∧ (∀ c ∈ i.readCalls, c.Survives) ∧ ∃ n, i.write = .ok n
  | .runFunctor r calls => r.Survives ∧ ∀ c ∈ calls, c.Survives
  | _ => True

/-- The sends still in the functor queue, oldest first. -/
def World.queuedSends (s : World) : List (ThreadId × List UInt8) :=
  (s.functors ++ s.pendingFunctors).filterMap Functor.send?

/-- The invariant of the output path. -/
structure Stream (s : World) : Prop where
  buffer : s.conn.outputBuffer.Inv
  foreign : ∀ x ∈ s.queuedSends, x.1 ≠ loopThread
  order : ∀ tid, (s.handled ++ s.queuedSends).filter (·.1 = tid) = s.sent.filter (·.1 = tid)
  bytes : s.conn.state ≠ .kDisconnected →
    s.written ++ s.conn.outputBuffer.readable = s.handled.flatMap Prod.snd
  interest : s.conn.state ≠ .kDisconnected →
    (s.conn.channel.isWriting = true ↔ s.conn.outputBuffer.readable ≠ [])

/-- `t` differs from `s` in nothing that `Stream` speaks of, or `t` is down. -/
structure SameOutput (s t : World) : Prop where
  buffer : t.conn.outputBuffer = s.conn.outputBuffer
  sent : t.sent = s.sent
  handled : t.handled = s.handled
  queued : t.queuedSends = s.queuedSends
  alive : t.conn.state ≠ .kDisconnected → s.conn.state ≠ .kDisconnected ∧
    t.written = s.written ∧ t.conn.channel.isWriting = s.conn.channel.isWriting

variable {s t u : World}

theorem Stream.of_same (h : Stream s) (e : SameOutput s t) : Stream t where
  buffer := by
    rw [e.buffer]
    exact h.buffer
  foreign := by
    rw [e.queued]
    exact h.foreign
  order := by
    rw [e.handled, e.queued, e.sent]
    exact h.order
  bytes := by
    intro halive
    obtain ⟨hs, hwritten, -⟩ := e.alive halive
    rw [hwritten, e.buffer, e.handled]
    exact h.bytes hs
  interest := by
    intro halive
    obtain ⟨hs, -, hwriting⟩ := e.alive halive
    rw [hwriting, e.buffer]
    exact h.interest hs

theorem SameOutput.trans (h : SameOutput s t) (h' : SameOutput t u) : SameOutput s u where
  buffer := h'.buffer.trans h.buffer
  sent := h'.sent.trans h.sent
  handled := h'.handled.trans h.handled
  queued := h'.queued.trans h.queued
  alive := by
    intro halive
    obtain ⟨ht, hwritten, hwriting⟩ := h'.alive halive
    obtain ⟨hs, hwritten', hwriting'⟩ := h.alive ht
    exact ⟨hs, hwritten.trans hwritten', hwriting.trans hwriting'⟩

theorem SameOutput.refl (s : World) : SameOutput s s :=
  ⟨rfl, rfl, rfl, rfl, fun h => ⟨h, rfl, rfl⟩⟩

/-! ## Steps that leave the output alone -/

theorem queuedSends_queueInLoop (s : World) (f : Functor) :
    (s.queueInLoop f).queuedSends = s.queuedSends ++ f.send?.toList := by
  cases h : f.send? <;> simp [World.queuedSends, World.queueInLoop, h]

theorem queueInLoop_same {f : Functor} (hf : f.send? = none) : SameOutput s (s.queueInLoop f) where
  buffer := rfl
  sent := rfl
  handled := rfl
  queued := by rw [queuedSends_queueInLoop, hf, Option.toList_none, List.append_nil]
  alive := fun h => ⟨h, rfl, rfl⟩

theorem setState_same {state : StateE}
    (h : state ≠ .kDisconnected → s.conn.state ≠ .kDisconnected) :
    SameOutput s (s.setState state) :=
  ⟨rfl, rfl, rfl, rfl, fun halive => ⟨h halive, rfl, rfl⟩⟩

/-- A channel operation that keeps the write interest. -/
theorem onChannel_same {op : Channel.Op}
    (h : (op s.conn.channel s.epoll).val.1.isWriting = s.conn.channel.isWriting) :
    SameOutput s (s.onChannel op) :=
  ⟨rfl, rfl, rfl, rfl, fun halive => ⟨halive, rfl, h⟩⟩

theorem enableReading_same : SameOutput s (s.onChannel Channel.enableReading) := by
  refine onChannel_same ?_
  simp only [Channel.isWriting, Channel.enableReading, Channel.setEvents_events]

/-- Going down. -/
theorem disconnect_same :
    SameOutput s ((s.setState .kDisconnected).onChannel Channel.disableAll) :=
  ⟨rfl, rfl, rfl, rfl, fun halive => absurd rfl halive⟩

theorem shutdownInLoop_same : SameOutput s (shutdownInLoop s) := by
  unfold shutdownInLoop
  split
  · exact SameOutput.refl s
  · exact ⟨rfl, rfl, rfl, rfl, fun h => ⟨h, rfl, rfl⟩⟩

theorem shutdown_same (tid : ThreadId) : SameOutput s (shutdown s tid) := by
  unfold shutdown
  split
  next hstate =>
    have halive : SameOutput s (s.setState .kDisconnecting) :=
      setState_same fun _ => by rw [hstate]; decide
    split
    · exact halive.trans shutdownInLoop_same
    · exact halive.trans (queueInLoop_same rfl)
  · exact SameOutput.refl s

theorem setState_kDisconnecting_same
    (h : s.conn.state = .kConnected ∨ s.conn.state = .kDisconnecting) :
    SameOutput s (s.setState .kDisconnecting) := by
  refine setState_same fun _ => ?_
  rcases h with h | h <;> (rw [h]; decide)

theorem forceClose_same : SameOutput s (forceClose s) := by
  unfold forceClose
  split
  next hstate => exact (setState_kDisconnecting_same hstate).trans (queueInLoop_same rfl)
  · exact SameOutput.refl s

theorem forceCloseWithDelay_same : SameOutput s (forceCloseWithDelay s) := by
  unfold forceCloseWithDelay
  split
  next hstate =>
    obtain ⟨hbuf, hsent, hhandled, hqueued, halive⟩ := setState_kDisconnecting_same hstate
    exact ⟨hbuf, hsent, hhandled, hqueued, halive⟩
  · exact SameOutput.refl s

theorem startReadInLoop_same : SameOutput s (startReadInLoop s) := by
  unfold startReadInLoop
  split
  · obtain ⟨hbuf, hsent, hhandled, hqueued, halive⟩ := enableReading_same (s := s)
    exact ⟨hbuf, hsent, hhandled, hqueued, halive⟩
  · exact SameOutput.refl s

theorem startRead_same (tid : ThreadId) : SameOutput s (startRead s tid) := by
  unfold startRead
  split
  · exact startReadInLoop_same
  · exact queueInLoop_same rfl

theorem stopRead_same (tid : ThreadId) : SameOutput s (stopRead s tid) := by
  unfold stopRead
  split
  · exact ⟨rfl, rfl, rfl, rfl, fun h => ⟨h, rfl, rfl⟩⟩
  · exact queueInLoop_same rfl

/-! ## Sending in the loop thread -/

/-- Neither the ghosts nor the queued sends change. -/
structure SameSends (s t : World) : Prop where
  state : t.conn.state = s.conn.state
  sent : t.sent = s.sent
  handled : t.handled = s.handled
  queued : t.queuedSends = s.queuedSends

theorem queueInLoop_sameSends {f : Functor} (hf : f.send? = none) :
    SameSends s (s.queueInLoop f) :=
  ⟨rfl, rfl, rfl, (queueInLoop_same hf).queued⟩

/-- An error that the connection survives is not a fault. -/
theorem not_fault {errno : Errno} (hr : (WriteResult.error errno).Survives) :
    decide (errno = .EPIPE ∨ errno = .ECONNRESET) = false := by
  refine decide_eq_false fun h => ?_
  rcases h with rfl | rfl
  · exact hr.1 rfl
  · exact hr.2 rfl

/-- The direct attempt takes some `k` bytes from the front of the message, and none
    unless the output buffer is empty. -/
theorem writeDirectly_spec (data : List UInt8) {r : WriteResult} (hr : r.Survives) :
    ∃ k s', writeDirectly s data r = (s', k, false) ∧ k ≤ data.length ∧ SameSends s s' ∧
      s'.conn = s.conn ∧ s'.written = s.written ++ data.take k ∧
      (0 < k → s.conn.outputBuffer.readableBytes = 0 ∧ s.conn.channel.isWriting = false) := by
  unfold writeDirectly
  split
  next hguard =>
    have hempty : s.conn.outputBuffer.readableBytes = 0 ∧ s.conn.channel.isWriting = false :=
      ⟨hguard.2, by simpa using hguard.1⟩
    cases r with
    | ok n =>
        dsimp only
        split
        · exact ⟨_, _, rfl, Nat.min_le_right _ _, ⟨rfl, rfl, rfl, (queueInLoop_same rfl).queued⟩,
            rfl, rfl, fun _ => hempty⟩
        · exact ⟨_, _, rfl, Nat.min_le_right _ _, ⟨rfl, rfl, rfl, rfl⟩, rfl, rfl, fun _ => hempty⟩
    | error errno =>
        refine ⟨0, s, ?_, Nat.zero_le _, ⟨rfl, rfl, rfl, rfl⟩, rfl, (List.append_nil _).symm, ?_⟩
        · simp only [not_fault hr]
        · exact fun h => absurd h (Nat.lt_irrefl 0)
  · exact ⟨0, s, rfl, Nat.zero_le _, ⟨rfl, rfl, rfl, rfl⟩, rfl, (List.append_nil _).symm,
      fun h => absurd h (Nat.lt_irrefl 0)⟩

/-- The rest is buffered and the channel asks for writability. -/
theorem appendOutput_spec (hbuf : s.conn.outputBuffer.Inv) (rest : List UInt8) :
    SameSends s (appendOutput s rest) ∧ (appendOutput s rest).written = s.written ∧
      (appendOutput s rest).conn.outputBuffer.Inv ∧
      (appendOutput s rest).conn.outputBuffer.readable = s.conn.outputBuffer.readable ++ rest ∧
      (appendOutput s rest).conn.channel.isWriting = true := by
  have happ := Buffer.append_yields hbuf rest
  -- the high-water mark only queues a callback
  obtain ⟨s1, hs1, hsends, hconn, hwritten⟩ : ∃ s1, (if s.conn.highWaterMark ≤
      s.conn.outputBuffer.readableBytes + rest.length ∧
      s.conn.outputBuffer.readableBytes < s.conn.highWaterMark ∧ s.conn.highWaterMarkCallback then
        s.queueInLoop (.highWaterMarkCallback (s.conn.outputBuffer.readableBytes + rest.length))
      else s) = s1 ∧ SameSends s s1 ∧ s1.conn = s.conn ∧ s1.written = s.written := by
    split
    · exact ⟨_, rfl, queueInLoop_sameSends rfl, rfl, rfl⟩
    · exact ⟨_, rfl, ⟨rfl, rfl, rfl, rfl⟩, rfl, rfl⟩
  simp only [appendOutput, hs1]
  rw [← hconn] at happ
  obtain ⟨hstate, hsent, hhandled, hqueued⟩ := hsends
  split
  next hwriting =>
    exact ⟨⟨hstate, hsent, hhandled, hqueued⟩, hwritten, happ.inv, by rw [← hconn]; exact happ.readable,
      hwriting⟩
  · refine ⟨⟨hstate, hsent, hhandled, hqueued⟩, hwritten, happ.inv, by rw [← hconn]; exact happ.readable, ?_⟩
    simp only [World.onChannel, Channel.isWriting, Channel.enableWriting, Channel.setEvents_events]

/-- `sendInLoop` puts the whole message behind what is there, on whichever way. -/
theorem sendInLoop_spec (hbuf : s.conn.outputBuffer.Inv) (halive : s.conn.state ≠ .kDisconnected)
    (hint : s.conn.channel.isWriting = true ↔ s.conn.outputBuffer.readable ≠ [])
    (data : List UInt8) {r : WriteResult} (hr : r.Survives) :
    SameSends s (sendInLoop s data r) ∧ (sendInLoop s data r).conn.outputBuffer.Inv ∧
      (sendInLoop s data r).written ++ (sendInLoop s data r).conn.outputBuffer.readable =
        s.written ++ s.conn.outputBuffer.readable ++ data ∧
      ((sendInLoop s data r).conn.channel.isWriting = true ↔
        (sendInLoop s data r).conn.outputBuffer.readable ≠ []) := by
  obtain ⟨k, s1, hattempt, hk, hsends, hconn, hwritten, hdirect⟩ := writeDirectly_spec (s := s) data hr
  -- bytes only go out directly past an empty buffer
  have hskip : s.written ++ data.take k ++ s.conn.outputBuffer.readable =
      s.written ++ s.conn.outputBuffer.readable ++ data.take k := by
    rcases Nat.eq_zero_or_pos k with rfl | hpos
    · simp
    · rw [(Buffer.readable_eq_nil_iff hbuf).mpr (hdirect hpos).1, List.append_nil, List.append_nil]
  simp only [sendInLoop, if_neg halive, hattempt, Bool.false_eq_true, not_false_eq_true, true_and]
  split
  next hrest =>
    -- a short write: the rest of the message goes to the buffer
    have hbuf1 : s1.conn.outputBuffer.Inv := by rw [hconn]; exact hbuf
    obtain ⟨happSends, happWritten, happInv, happRead, happInt⟩ :=
      appendOutput_spec hbuf1 (data.drop k)
    refine ⟨⟨happSends.state.trans hsends.state, happSends.sent.trans hsends.sent,
      happSends.handled.trans hsends.handled, happSends.queued.trans hsends.queued⟩, happInv, ?_, ?_⟩
    · rw [happWritten, happRead, hwritten, hconn, ← List.append_assoc, hskip, List.append_assoc,
        List.take_append_drop]
    · rw [happInt, happRead]
      have hne : data.drop k ≠ [] := by
        intro hnil
        have hlen := congrArg List.length hnil
        rw [List.length_drop] at hlen
        exact absurd hlen (by simpa using Nat.ne_of_gt hrest)
      simp [hne]
  next hnone =>
    have hall : data.take k = data := List.take_of_length_le (by omega)
    refine ⟨hsends, by rw [hconn]; exact hbuf, ?_, by rw [hconn]; exact hint⟩
    rw [hwritten, hconn, hskip, hall]

/-- The message leaves the queue, or the caller, and is handled. -/
theorem sendMessage_stream {tid : ThreadId} {message : List UInt8} {r : WriteResult}
    (hr : r.Survives) (hbuf : s.conn.outputBuffer.Inv)
    (hforeign : ∀ x ∈ s.queuedSends, x.1 ≠ loopThread)
    (horder : ∀ t, (s.handled ++ (tid, message) :: s.queuedSends).filter (·.1 = t) =
      s.sent.filter (·.1 = t))
    (hbytes : s.conn.state ≠ .kDisconnected →
      s.written ++ s.conn.outputBuffer.readable = s.handled.flatMap Prod.snd)
    (hint : s.conn.state ≠ .kDisconnected →
      (s.conn.channel.isWriting = true ↔ s.conn.outputBuffer.readable ≠ [])) :
    Stream (sendMessage s tid message r) := by
  by_cases halive : s.conn.state = .kDisconnected
  · -- given up: nothing is promised of the bytes of a connection that is down
    have hsend : sendMessage s tid message r =
        { s with handled := s.handled ++ [(tid, message)] } := by
      simp only [sendMessage, sendInLoop, if_pos halive]
    rw [hsend]
    refine ⟨hbuf, hforeign, ?_, fun h => absurd halive h, fun h => absurd halive h⟩
    intro t
    rw [← horder t]
    exact congrArg (List.filter _) (List.append_assoc _ [(tid, message)] _)
  · obtain ⟨hsends, hbuf', hput, hint'⟩ := sendInLoop_spec hbuf halive (hint halive) message hr
    refine ⟨hbuf', ?_, ?_, ?_, fun _ => hint'⟩
    · show ∀ x ∈ (sendInLoop s message r).queuedSends, x.1 ≠ loopThread
      rw [hsends.queued]
      exact hforeign
    · intro t
      show (s.handled ++ [(tid, message)] ++ (sendInLoop s message r).queuedSends).filter
        (·.1 = t) = (sendInLoop s message r).sent.filter (·.1 = t)
      rw [hsends.queued, hsends.sent, ← horder t]
      exact congrArg (List.filter _) (List.append_assoc _ [(tid, message)] _)
    · intro _
      show (sendInLoop s message r).written ++ (sendInLoop s message r).conn.outputBuffer.readable =
        (s.handled ++ [(tid, message)]).flatMap Prod.snd
      rw [hput, hbytes halive, List.flatMap_append]
      simp

theorem send_stream (h : Stream s) (tid : ThreadId) (message : List UInt8) {r : WriteResult}
    (hr : r.Survives) : Stream (send s tid message r) := by
  unfold send
  split
  next hstate =>
    split
    next hloop =>
      -- no send of the loop thread waits in the queue, so this one overtakes none of its own
      refine sendMessage_stream hr h.buffer h.foreign ?_ h.bytes h.interest
      intro t
      show (s.handled ++ (tid, message) :: s.queuedSends).filter (·.1 = t) =
        (s.sent ++ [(tid, message)]).filter (·.1 = t)
      rw [List.filter_append s.sent, ← h.order t, List.filter_append, List.filter_append,
        List.filter_cons]
      by_cases ht : tid = t
      · have hnone : s.queuedSends.filter (·.1 = t) = [] := by
          refine List.filter_eq_nil_iff.mpr fun x hx heq => ?_
          have hx1 : x.1 = t := by simpa using heq
          exact h.foreign x hx (by rw [hx1, ← ht, hloop])
        simp [ht, hnone]
      · simp [ht]
    next hother =>
      -- another thread's send is the last in the queue
      have hqueued : ({ s with sent := s.sent ++ [(tid, message)] }.queueInLoop
          (.sendInLoop tid message)).queuedSends = s.queuedSends ++ [(tid, message)] :=
        queuedSends_queueInLoop _ _
      refine ⟨h.buffer, ?_, ?_, h.bytes, h.interest⟩
      · rw [hqueued]
        intro x hx
        rcases List.mem_append.mp hx with hx | hx
        · exact h.foreign x hx
        · rw [List.mem_singleton.mp hx]
          exact hother
      · intro t
        rw [hqueued]
        show (s.handled ++ (s.queuedSends ++ [(tid, message)])).filter (·.1 = t) =
          (s.sent ++ [(tid, message)]).filter (·.1 = t)
        rw [← List.append_assoc, List.filter_append, h.order t, List.filter_append]
  · exact h

theorem call_stream (h : Stream s) (tid : ThreadId) {c : Call} (hc : c.Survives) :
    Stream (call tid s c) := by
  cases c with
  | send message r => exact send_stream h tid message hc
  | sendBuffer buf r =>
      simp only [call, sendBuffer]
      split
      · exact send_stream h tid buf.readable hc
      · exact h
  | shutdown => exact h.of_same (shutdown_same tid)
  | forceClose => exact h.of_same forceClose_same
  | forceCloseWithDelay => exact h.of_same forceCloseWithDelay_same
  | startRead => exact h.of_same (startRead_same tid)
  | stopRead => exact h.of_same (stopRead_same tid)
  | retrieve len => exact h.of_same ⟨rfl, rfl, rfl, rfl, fun h => ⟨h, rfl, rfl⟩⟩

theorem calls_stream {calls : List Call} (hcalls : ∀ c ∈ calls, c.Survives) (h : Stream s) :
    Stream (calls.foldl (call loopThread) s) :=
  List.foldlRecOn calls (call loopThread) h fun _ hs c hc => call_stream hs loopThread (hcalls c hc)

theorem userCallback_stream {calls : List Call} (hcalls : ∀ c ∈ calls, c.Survives) (h : Stream s)
    (c : Callback) : Stream (userCallback s c calls) :=
  calls_stream hcalls (h.of_same ⟨rfl, rfl, rfl, rfl, fun h => ⟨h, rfl, rfl⟩⟩)

/-! ## Handlers -/

theorem handleClose_stream {calls : List Call} (hcalls : ∀ c ∈ calls, c.Survives) (h : Stream s) :
    Stream (handleClose s calls) := by
  have hdown := h.of_same (disconnect_same (s := s))
  have hchecked : Stream ((((s.check (s.conn.state = .kConnected ∨ s.conn.state = .kDisconnecting)
      .handleClose).setState .kDisconnected).onChannel Channel.disableAll)) :=
    hdown.of_same ⟨rfl, rfl, rfl, rfl, fun h => ⟨h, rfl, rfl⟩⟩
  have hcalled := userCallback_stream hcalls hchecked (.connection false)
  exact hcalled.of_same ⟨rfl, rfl, rfl, rfl, fun h => ⟨h, rfl, rfl⟩⟩

theorem handleRead_stream {calls : List Call} (hcalls : ∀ c ∈ calls, c.Survives) (h : Stream s)
    (r : Except Nat (List UInt8)) : Stream (handleRead s r calls) := by
  unfold handleRead
  have hread : ∀ x : Checked Buffer.Assert (Except Nat Nat × Buffer),
      Stream { s with
        conn := { s.conn with inputBuffer := x.val.2 }
        faults := s.faults ++ x.faults.map .buffer } :=
    fun x => h.of_same ⟨rfl, rfl, rfl, rfl, fun h => ⟨h, rfl, rfl⟩⟩
  dsimp only
  split
  · exact userCallback_stream hcalls (hread _) .message
  · exact handleClose_stream hcalls (hread _)
  · exact hread _

/-- A drain moves bytes from the front of the buffer to the socket. -/
theorem drainOutput_spec (h : Stream s) (n : Nat) :
    SameSends s (drainOutput s (.ok n)) ∧ (drainOutput s (.ok n)).conn.outputBuffer.Inv ∧
      (drainOutput s (.ok n)).written ++ (drainOutput s (.ok n)).conn.outputBuffer.readable =
        s.written ++ s.conn.outputBuffer.readable ∧
      (drainOutput s (.ok n)).conn.channel = s.conn.channel := by
  have hlen := Buffer.length_readable h.buffer
  have hle : min n s.conn.outputBuffer.readable.length ≤ s.conn.outputBuffer.readableBytes := by
    omega
  have hy := Buffer.retrieve_yields h.buffer hle
  refine ⟨⟨rfl, rfl, rfl, rfl⟩, hy.inv, ?_, rfl⟩
  show s.written ++ s.conn.outputBuffer.readable.take n ++
    (s.conn.outputBuffer.retrieve (min n s.conn.outputBuffer.readable.length)).val.readable = _
  have htake : s.conn.outputBuffer.readable.take n =
      s.conn.outputBuffer.readable.take (min n s.conn.outputBuffer.readable.length) := by
    rw [← List.take_take, List.take_length]
  rw [hy.readable, htake, List.append_assoc, List.take_append_drop]

/-- Behind `disableWriting`, the end of `handleWrite` only queues and shuts down. -/
theorem outputDrained_same (s : World) :
    SameOutput (s.onChannel Channel.disableWriting) (outputDrained s) := by
  unfold outputDrained
  dsimp only
  split
  · refine (queueInLoop_same (f := .writeCompleteCallback) rfl).trans ?_
    split
    · exact shutdownInLoop_same
    · exact SameOutput.refl _
  · split
    · exact shutdownInLoop_same
    · exact SameOutput.refl _

theorem handleWrite_stream (h : Stream s) (n : Nat) : Stream (handleWrite s (.ok n)) := by
  unfold handleWrite
  split
  next hwriting =>
    obtain ⟨hsends, hbuf, hput, hchannel⟩ := drainOutput_spec h n
    have hforeign : ∀ x ∈ (drainOutput s (.ok n)).queuedSends, x.1 ≠ loopThread := by
      rw [hsends.queued]
      exact h.foreign
    have horder : ∀ t, ((drainOutput s (.ok n)).handled ++ (drainOutput s (.ok n)).queuedSends).filter
        (·.1 = t) = (drainOutput s (.ok n)).sent.filter (·.1 = t) := by
      rw [hsends.handled, hsends.queued, hsends.sent]
      exact h.order
    have hbytes : (drainOutput s (.ok n)).conn.state ≠ .kDisconnected →
        (drainOutput s (.ok n)).written ++ (drainOutput s (.ok n)).conn.outputBuffer.readable =
          (drainOutput s (.ok n)).handled.flatMap Prod.snd := by
      rw [hsends.state, hput, hsends.handled]
      exact h.bytes
    dsimp only
    split
    next hleft =>
      -- bytes are left, and the interest with them
      refine ⟨hbuf, hforeign, horder, hbytes, fun _ => ?_⟩
      rw [hchannel, hwriting]
      simpa using fun hnil => hleft ((Buffer.readable_eq_nil_iff hbuf).mp hnil)
    next hdrained =>
      have hnil : (drainOutput s (.ok n)).conn.outputBuffer.readable = [] :=
        (Buffer.readable_eq_nil_iff hbuf).mpr (by simpa using hdrained)
      -- drained: the interest goes, and the invariant is back
      have hoff : Stream ((drainOutput s (.ok n)).onChannel Channel.disableWriting) := by
        refine ⟨hbuf, hforeign, horder, hbytes, fun _ => ?_⟩
        simp only [World.onChannel, Channel.isWriting, Channel.disableWriting,
          Channel.setEvents_events, hnil]
        simp
      exact hoff.of_same (outputDrained_same _)
  · exact h

theorem handleEvent_stream (h : Stream s) (revents : Revents) {i : Inputs}
    (hclose : ∀ c ∈ i.closeCalls, c.Survives) (hread : ∀ c ∈ i.readCalls, c.Survives)
    (hwrite : ∃ n, i.write = .ok n) : Stream (handleEvent s revents i) := by
  obtain ⟨n, hn⟩ := hwrite
  refine handleEvent_keeps ?_ ?_ ?_ h revents
  · exact fun s hs => handleClose_stream hclose hs
  · exact fun s hs => handleRead_stream hread hs i.read
  · intro s hs
    rw [hn]
    exact handleWrite_stream hs n

theorem connectDestroyed_stream {calls : List Call} (hcalls : ∀ c ∈ calls, c.Survives)
    (h : Stream s) : Stream (connectDestroyed s calls) := by
  have hdown : Stream (if s.conn.state = .kConnected then
      connectionCallback ((s.setState .kDisconnected).onChannel Channel.disableAll) calls
      else s) := by
    split
    · exact userCallback_stream hcalls (h.of_same disconnect_same) _
    · exact h
  exact hdown.of_same (onChannel_same rfl)

/-- A functor taken from the front of the batch. -/
theorem runFunctor_stream {f : Functor} {fs : List Functor} (hfs : s.functors = f :: fs)
    (h : Stream s) {r : WriteResult} (hr : r.Survives) {calls : List Call}
    (hcalls : ∀ c ∈ calls, c.Survives) : Stream (runFunctor { s with functors := fs } f r calls) := by
  have hqueue : s.queuedSends = f.send?.toList ++ { s with functors := fs }.queuedSends := by
    cases hf : f.send? <;> simp [World.queuedSends, hfs, hf]
  have hsame (hf : f.send? = none) : Stream { s with functors := fs } := by
    refine h.of_same ⟨rfl, rfl, rfl, ?_, fun h => ⟨h, rfl, rfl⟩⟩
    rw [hqueue, hf, Option.toList_none, List.nil_append]
  cases f with
  | sendInLoop tid message =>
      -- the oldest of the queued messages is handled next
      have hqueue' : s.queuedSends = (tid, message) :: { s with functors := fs }.queuedSends := hqueue
      refine sendMessage_stream hr h.buffer ?_ ?_ h.bytes h.interest
      · intro x hx
        exact h.foreign x (by rw [hqueue']; exact List.mem_cons_of_mem _ hx)
      · intro t
        rw [← hqueue']
        exact h.order t
  | shutdownInLoop => exact (hsame rfl).of_same shutdownInLoop_same
  | forceCloseInLoop =>
      simp only [runFunctor, forceCloseInLoop]
      split
      · exact handleClose_stream hcalls (hsame rfl)
      · exact hsame rfl
  | startReadInLoop => exact (hsame rfl).of_same startReadInLoop_same
  | stopReadInLoop => exact (hsame rfl).of_same ⟨rfl, rfl, rfl, rfl, fun h => ⟨h, rfl, rfl⟩⟩
  | writeCompleteCallback => exact userCallback_stream hcalls (hsame rfl) .writeComplete
  | highWaterMarkCallback size => exact userCallback_stream hcalls (hsame rfl) (.highWaterMark size)
  | connectDestroyed => exact connectDestroyed_stream hcalls (hsame rfl)

/-! ## Whole runs -/

theorem step_stream (h : Stream s) {a : Action} (ha : a.Survives) (hstep : step s a = some t) :
    Stream t := by
  obtain ⟨-, hsteps⟩ := steps_of_step hstep
  cases hsteps with
  | connectEstablished calls hstate =>
      refine userCallback_stream ha (Stream.of_same (s := s) h ?_) _
      have hup : SameOutput s (s.setState .kConnected) :=
        setState_same fun _ => by rw [hstate]; decide
      obtain ⟨hbuf, hsent, hhandled, hqueued, halive⟩ := hup.trans enableReading_same
      exact ⟨hbuf, hsent, hhandled, hqueued, halive⟩
  | call tid c => exact call_stream h tid ha
  | handleEvent revents i hidle hkernel => exact handleEvent_stream h revents ha.1 ha.2.1 ha.2.2
  | swapFunctors hidle =>
      -- the queue is cut elsewhere, its order is the same
      refine h.of_same ⟨rfl, rfl, rfl, ?_, fun h => ⟨h, rfl, rfl⟩⟩
      simp [World.queuedSends, hidle]
  | runFunctor r calls f fs hfs => exact runFunctor_stream hfs h ha.1 ha.2
  | forceCloseTimer hdelayed =>
      have hfired : Stream { s with delayed := s.delayed - 1 } :=
        h.of_same ⟨rfl, rfl, rfl, rfl, fun h => ⟨h, rfl, rfl⟩⟩
      exact hfired.of_same forceClose_same
  | removeConnection hclosing =>
      have hclosed : Stream { s with closing := s.closing - 1 } :=
        h.of_same ⟨rfl, rfl, rfl, rfl, fun h => ⟨h, rfl, rfl⟩⟩
      exact hclosed.of_same (queueInLoop_same rfl)

theorem newConnection_stream (self fd : Nat) (epoll : Epoll) (wc hw : Bool) (mark : Nat) :
    Stream (newConnection self fd epoll wc hw mark) where
  buffer := Buffer.new_inv _
  foreign := by
    intro x hx
    exact absurd hx List.not_mem_nil
  order := fun _ => rfl
  bytes := fun _ => Buffer.readable_new Buffer.kInitialSize
  interest := fun _ => by
    have hout : (newConnection self fd epoll wc hw mark).conn.outputBuffer.readable = [] :=
      Buffer.readable_new _
    rw [hout]
    exact ⟨fun h => absurd h Bool.false_ne_true, fun h => absurd rfl h⟩

/-- Equal per-thread sublists make a permutation. -/
theorem perm_of_filter_eq {xs ys : List (ThreadId × List UInt8)}
    (h : ∀ tid, xs.filter (·.1 = tid) = ys.filter (·.1 = tid)) : xs.Perm ys := by
  refine List.perm_iff_count.mpr fun x => ?_
  have hcount (l : List (ThreadId × List UInt8)) :
      (l.filter (·.1 = x.1)).count x = l.count x := List.count_filter (by simp)
  rw [← hcount xs, h x.1, hcount ys]

/-- **Output stream integrity.**  In every state of a run in which the connection is
    (still) connected: the bytes written and buffered are whole messages, those still
    queued come behind them, each send is there once and every thread's sends are in its
    own order; and the channel waits for writability iff bytes are buffered. -/
theorem output_stream (self fd : Nat) (epoll : Epoll) (wc hw : Bool) (mark : Nat)
    {actions : List Action} (hactions : ∀ a ∈ actions, a.Survives) {s : World}
    (hrun : run step (newConnection self fd epoll wc hw mark) actions = some s)
    (hconnected : s.conn.state = .kConnected) :
    (∃ done : List (ThreadId × List UInt8),
      s.written ++ s.conn.outputBuffer.readable = done.flatMap Prod.snd ∧
      (done ++ s.queuedSends).Perm s.sent ∧
      ∀ tid, (done ++ s.queuedSends).filter (·.1 = tid) = s.sent.filter (·.1 = tid)) ∧
      (s.conn.channel.isWriting = true ↔ s.conn.outputBuffer.readable ≠ []) := by
  have h : Stream s := run_invariant_of (fun _ _ _ ha hs hstep => step_stream hs ha hstep) hactions
    (newConnection_stream self fd epoll wc hw mark) hrun
  have halive : s.conn.state ≠ .kDisconnected := by
    rw [hconnected]
    decide
  exact ⟨⟨s.handled, h.bytes halive, perm_of_filter_eq h.order, h.order⟩, h.interest halive⟩

/-- Two threads send; the loop thread's own send overtakes and is written in part, the
    queued one waits behind the rest of it, and a drain takes some of both. -/
def sampleActions : List Action :=
  [.connectEstablished [], .call 1 (.send [1, 2] (.ok 0)), .call loopThread (.send [3, 4, 5] (.ok 1)),
    .swapFunctors, .call 2 (.send [6] (.ok 0)), .runFunctor (.ok 9) [],
    .handleEvent { epollout := true } { write := .ok 3 }]

theorem output_stream_sampleActions :
    ∃ s, run step (newConnection 1 3 Epoll.empty true true 4) sampleActions = some s ∧
      s.conn.state = .kConnected ∧
      (∃ done : List (ThreadId × List UInt8),
        s.written ++ s.conn.outputBuffer.readable = done.flatMap Prod.snd ∧
        (done ++ s.queuedSends).Perm s.sent ∧
        ∀ tid, (done ++ s.queuedSends).filter (·.1 = tid) = s.sent.filter (·.1 = tid)) ∧
      (s.conn.channel.isWriting = true ↔ s.conn.outputBuffer.readable ≠ []) := by
  have hsome : ((run step (newConnection 1 3 Epoll.empty true true 4) sampleActions).map
      fun s => s.conn.state) = some .kConnected := by decide +kernel
  obtain ⟨s, hrun, hstate⟩ := Option.map_eq_some_iff.mp hsome
  have hsurvives : ∀ a ∈ sampleActions, a.Survives := by
    simp [sampleActions, Action.Survives, Call.Survives, WriteResult.Survives]
  exact ⟨s, hrun, hstate, output_stream 1 3 Epoll.empty true true 4 hsurvives hrun hstate⟩

end TcpConnection
end Youth.Net
