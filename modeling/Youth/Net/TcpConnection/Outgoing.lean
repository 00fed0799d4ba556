/-
  Youth.Net.TcpConnection.Outgoing

  What a peer can ever get of a connection.

  The bytes that the socket has taken are the beginning of the messages, also when the
  connection is down; and if it was shut for writing while it was up, then between two
  messages (`Outgoing`).  A connection that is down does not write any more, as it has no
  interest in writing and `sendInLoop` gives up.  `Stream` says why nothing is buffered
  when `SHUT_WR` is sent.

  `Grows` is what every step does to the past: nothing of it is changed.
-/

import Mathlib.Data.List.Infix
import Youth.Net.TcpConnection.Closed
import Youth.Net.TcpConnection.Graceful

namespace Youth.Net
namespace TcpConnection

open Youth.Lib

variable {s t u : World}

/-! ## The past -/

/-- What was written, handled and shut down is kept, and a connection that is down stays
    down. -/
structure Grows (s t : World) : Prop where
  written : s.written <+: t.written
  handled : s.handled <+: t.handled
  shutWr : s.shutWr <+: t.shutWr
  alive : t.conn.state ≠ .kDisconnected → s.conn.state ≠ .kDisconnected

theorem Grows.refl (s : World) : Grows s s :=
  ⟨List.prefix_refl _, List.prefix_refl _, List.prefix_refl _, id⟩

theorem Grows.trans (h : Grows s t) (h' : Grows t u) : Grows s u :=
  ⟨h.written.trans h'.written, h.handled.trans h'.handled, h.shutWr.trans h'.shutWr,
    fun hu => h.alive (h'.alive hu)⟩

theorem grows_of_same (hwritten : t.written = s.written) (hhandled : t.handled = s.handled)
    (hshut : t.shutWr = s.shutWr)
    (halive : t.conn.state ≠ .kDisconnected → s.conn.state ≠ .kDisconnected) : Grows s t where
  written := by rw [hwritten]
  handled := by rw [hhandled]
  shutWr := by rw [hshut]
  alive := halive

theorem writeDirectly_grows (data : List UInt8) (r : WriteResult) :
    Grows s (writeDirectly s data r).1 := by
  unfold writeDirectly
  split
  · cases r with
    | ok n =>
        dsimp only
        split <;> exact ⟨List.prefix_append _ _, List.prefix_refl _, List.prefix_refl _, id⟩
    | error errno => exact Grows.refl s
  · exact Grows.refl s

theorem appendOutput_grows (rest : List UInt8) : Grows s (appendOutput s rest) := by
  unfold appendOutput
  dsimp only
  split <;> split <;> exact grows_of_same rfl rfl rfl id

theorem sendMessage_grows (tid : ThreadId) (message : List UInt8) (r : WriteResult) :
    Grows s (sendMessage s tid message r) := by
  have hsend : Grows s (sendInLoop s message r) := by
    unfold sendInLoop
    split
    · exact Grows.refl s
    · dsimp only
      split
      · exact (writeDirectly_grows message r).trans (appendOutput_grows _)
      · exact writeDirectly_grows message r
  exact ⟨hsend.written, List.prefix_append _ _, hsend.shutWr, hsend.alive⟩

theorem send_grows (tid : ThreadId) (message : List UInt8) (r : WriteResult) :
    Grows s (send s tid message r) := by
  unfold send
  split
  · have hsent : Grows s { s with sent := s.sent ++ [(tid, message)] } := grows_of_same rfl rfl rfl id
    dsimp only
    split
    · exact hsent.trans (sendMessage_grows tid message r)
    · exact hsent.trans (grows_of_same rfl rfl rfl id)
  · exact Grows.refl s

theorem shutdownInLoop_grows : Grows s (shutdownInLoop s) := by
  unfold shutdownInLoop
  split
  · exact Grows.refl s
  · exact ⟨List.prefix_refl _, List.prefix_refl _, List.prefix_append _ _, id⟩

theorem shutdown_grows (tid : ThreadId) : Grows s (shutdown s tid) := by
  unfold shutdown
  split
  next hstate =>
    have hset : Grows s (s.setState .kDisconnecting) :=
      grows_of_same rfl rfl rfl fun _ => by simp [hstate]
    dsimp only
    split
    · exact hset.trans shutdownInLoop_grows
    · exact hset.trans (grows_of_same rfl rfl rfl id)
  · exact Grows.refl s

theorem forceClose_grows : Grows s (forceClose s) := by
  unfold forceClose
  split
  next hstate =>
    refine grows_of_same rfl rfl rfl fun _ => ?_
    rcases hstate with h | h <;> simp [h]
  · exact Grows.refl s

theorem forceCloseWithDelay_grows : Grows s (forceCloseWithDelay s) := by
  unfold forceCloseWithDelay
  split
  next hstate =>
    refine grows_of_same rfl rfl rfl fun _ => ?_
    rcases hstate with h | h <;> simp [h]
  · exact Grows.refl s

theorem startReadInLoop_grows : Grows s (startReadInLoop s) := by
  unfold startReadInLoop
  split <;> exact grows_of_same rfl rfl rfl id

theorem call_grows (tid : ThreadId) (c : Call) : Grows s (call tid s c) := by
  cases c with
  | send message r => exact send_grows tid message r
  | sendBuffer buf r =>
      simp only [call, sendBuffer]
      split
      · exact send_grows tid buf.readable r
      · exact Grows.refl s
  | shutdown => exact shutdown_grows tid
  | forceClose => exact forceClose_grows
  | forceCloseWithDelay => exact forceCloseWithDelay_grows
  | startRead =>
      simp only [call, startRead]
      split
      · exact startReadInLoop_grows
      · exact grows_of_same rfl rfl rfl id
  | stopRead =>
      simp only [call, stopRead]
      split <;> exact grows_of_same rfl rfl rfl id
  | retrieve len => exact grows_of_same rfl rfl rfl id

theorem userCallback_grows (c : Callback) (calls : List Call) : Grows s (userCallback s c calls) := by
  have hcalled : Grows s (s.callback c) := grows_of_same rfl rfl rfl id
  exact List.foldlRecOn (motive := Grows s) calls (call loopThread) hcalled
    fun _ hs c _ => hs.trans (call_grows loopThread c)

/-- State, events and callback of a connection that goes down. -/
theorem disconnect_grows (calls : List Call) : Grows s
    (connectionCallback ((s.setState .kDisconnected).onChannel Channel.disableAll) calls) :=
  Grows.trans (t := (s.setState .kDisconnected).onChannel Channel.disableAll)
    (grows_of_same rfl rfl rfl fun hdown => absurd rfl hdown) (userCallback_grows _ calls)

theorem handleClose_grows (calls : List Call) : Grows s (handleClose s calls) := by
  have hchecked : Grows s (s.check (s.conn.state = .kConnected ∨ s.conn.state = .kDisconnecting)
      .handleClose) := grows_of_same rfl rfl rfl id
  exact (hchecked.trans (disconnect_grows calls)).trans (grows_of_same rfl rfl rfl id)

theorem handleRead_grows (r : Except Nat (List UInt8)) (calls : List Call) :
    Grows s (handleRead s r calls) := by
  unfold handleRead
  have hread : ∀ x : Checked Buffer.Assert (Except Nat Nat × Buffer),
      Grows s { s with
        conn := { s.conn with inputBuffer := x.val.2 }
        faults := s.faults ++ x.faults.map .buffer } := fun x => grows_of_same rfl rfl rfl id
  dsimp only
  split
  · exact (hread _).trans (userCallback_grows _ calls)
  · exact (hread _).trans (handleClose_grows calls)
  · exact hread _

theorem drainOutput_grows (r : WriteResult) : Grows s (drainOutput s r) := by
  cases r with
  | ok n => exact ⟨List.prefix_append _ _, List.prefix_refl _, List.prefix_refl _, id⟩
  | error errno => exact grows_of_same rfl rfl rfl id

theorem outputDrained_grows : Grows s (outputDrained s) := by
  unfold outputDrained
  dsimp only
  -- with a write-complete callback and without; going down or not
  split <;> split
  · refine Grows.trans ?_ shutdownInLoop_grows
    exact grows_of_same rfl rfl rfl id
  · exact grows_of_same rfl rfl rfl id
  · refine Grows.trans ?_ shutdownInLoop_grows
    exact grows_of_same rfl rfl rfl id
  · exact grows_of_same rfl rfl rfl id

theorem handleWrite_grows (r : WriteResult) : Grows s (handleWrite s r) := by
  unfold handleWrite
  split
  · dsimp only
    split
    · exact drainOutput_grows r
    · exact (drainOutput_grows r).trans outputDrained_grows
  · exact Grows.refl s

theorem connectDestroyed_grows (calls : List Call) : Grows s (connectDestroyed s calls) := by
  unfold connectDestroyed
  dsimp only
  split
  · exact (disconnect_grows calls).trans (grows_of_same rfl rfl rfl id)
  · exact grows_of_same rfl rfl rfl id

theorem runFunctor_grows (f : Functor) (r : WriteResult) (calls : List Call) :
    Grows s (runFunctor s f r calls) := by
  cases f with
  | sendInLoop tid message => exact sendMessage_grows tid message r
  | shutdownInLoop => exact shutdownInLoop_grows
  | forceCloseInLoop =>
      simp only [runFunctor, forceCloseInLoop]
      split
      · exact handleClose_grows calls
      · exact Grows.refl s
  | startReadInLoop => exact startReadInLoop_grows
  | stopReadInLoop => exact grows_of_same rfl rfl rfl id
  | writeCompleteCallback => exact userCallback_grows _ calls
  | highWaterMarkCallback size => exact userCallback_grows _ calls
  | connectDestroyed => exact connectDestroyed_grows calls

theorem step_grows {a : Action} (hstep : step s a = some t) : Grows s t := by
  obtain ⟨-, hsteps⟩ := steps_of_step hstep
  cases hsteps with
  | connectEstablished calls hstate =>
      have hup : Grows s (((s.check (s.conn.state = .kConnecting) .connectEstablished).setState
          .kConnected).onChannel Channel.enableReading) :=
        grows_of_same rfl rfl rfl fun _ => by simp [hstate]
      exact hup.trans (userCallback_grows _ calls)
  | call tid c => exact call_grows tid c
  | handleEvent revents i hidle hkernel =>
      exact handleEvent_keeps (P := Grows s) (fun _ hs => hs.trans (handleClose_grows _))
        (fun _ hs => hs.trans (handleRead_grows _ _)) (fun _ hs => hs.trans (handleWrite_grows _))
        (Grows.refl s) revents
  | swapFunctors hidle => exact grows_of_same rfl rfl rfl id
  | runFunctor r calls f fs hfs =>
      exact Grows.trans (t := { s with functors := fs }) (grows_of_same rfl rfl rfl id)
        (runFunctor_grows f r calls)
  | forceCloseTimer hdelayed =>
      exact Grows.trans (t := { s with delayed := s.delayed - 1 }) (grows_of_same rfl rfl rfl id)
        forceClose_grows
  | removeConnection hclosing => exact grows_of_same rfl rfl rfl id

/-! ## Messages and bytes -/

/-- The first `n` bytes written are whole messages. -/
def Boundary (s : World) (n : Nat) : Prop :=
  n ≤ s.written.length ∧ ∃ done, done <+: s.handled ∧ s.written.take n = done.flatMap Prod.snd

structure Outgoing (s : World) : Prop where
  out : s.written <+: s.handled.flatMap Prod.snd
  quiet : s.conn.state = .kDisconnected → s.conn.channel.isWriting = false
  whole : s.conn.state ≠ .kDisconnected → ∀ n, s.shutWr.head? = some n → Boundary s n

/-- From `s` to `t` nothing is written, handled or shut down. -/
structure Keeps (s t : World) : Prop where
  written : t.written = s.written
  handled : t.handled = s.handled
  shutWr : t.shutWr = s.shutWr
  alive : t.conn.state ≠ .kDisconnected → s.conn.state ≠ .kDisconnected
  quiet : t.conn.state = .kDisconnected → t.conn.channel.isWriting = false ∨
    s.conn.state = .kDisconnected ∧ t.conn.channel.isWriting = s.conn.channel.isWriting

theorem Keeps.refl (s : World) : Keeps s s := ⟨rfl, rfl, rfl, id, fun h => .inr ⟨h, rfl⟩⟩

theorem Keeps.trans (h : Keeps s t) (h' : Keeps t u) : Keeps s u where
  written := h'.written.trans h.written
  handled := h'.handled.trans h.handled
  shutWr := h'.shutWr.trans h.shutWr
  alive := fun hu => h.alive (h'.alive hu)
  quiet := by
    intro hu
    rcases h'.quiet hu with hoff | ⟨ht, hsame⟩
    · exact .inl hoff
    · rw [hsame]
      exact h.quiet ht

/-- Neither the state nor the channel changes. -/
theorem keeps_of_same (hwritten : t.written = s.written) (hhandled : t.handled = s.handled)
    (hshut : t.shutWr = s.shutWr) (hstate : t.conn.state = s.conn.state)
    (hwriting : t.conn.channel.isWriting = s.conn.channel.isWriting) : Keeps s t :=
  ⟨hwritten, hhandled, hshut, fun h => hstate ▸ h, fun h => .inr ⟨hstate ▸ h, hwriting⟩⟩

/-- The connection is up at the end, as it was before. -/
theorem keeps_of_alive (hwritten : t.written = s.written) (hhandled : t.handled = s.handled)
    (hshut : t.shutWr = s.shutWr) (hs : s.conn.state ≠ .kDisconnected)
    (ht : t.conn.state ≠ .kDisconnected) : Keeps s t :=
  ⟨hwritten, hhandled, hshut, fun _ => hs, fun h => absurd h ht⟩

theorem Keeps.grows (k : Keeps s t) : Grows s t :=
  grows_of_same k.written k.handled k.shutWr k.alive

theorem Boundary.mono {n : Nat} (h : Boundary s n) (hgrows : Grows s t) : Boundary t n := by
  obtain ⟨hn, done, hdone, htake⟩ := h
  obtain ⟨more, hmore⟩ := hgrows.written
  refine ⟨?_, done, hdone.trans hgrows.handled, ?_⟩
  · rw [← hmore, List.length_append]
    omega
  · rw [← hmore, List.take_append_of_le_length hn, htake]

theorem Outgoing.of_keeps (h : Outgoing s) (k : Keeps s t) : Outgoing t where
  out := by
    rw [k.written, k.handled]
    exact h.out
  quiet := by
    intro ht
    rcases k.quiet ht with hoff | ⟨hs, hsame⟩
    · exact hoff
    · rw [hsame]
      exact h.quiet hs
  whole := by
    intro ht n hn
    rw [k.shutWr] at hn
    exact (h.whole (k.alive ht) n hn).mono k.grows

/-! ## Closing -/

/-- With nothing buffered, all messages are with the socket. -/
theorem Stream.written_eq (hs : Stream s) (halive : s.conn.state ≠ .kDisconnected)
    (hoff : ¬s.conn.channel.isWriting = true) : s.written = s.handled.flatMap Prod.snd := by
  have hempty : s.conn.outputBuffer.readable = [] := by
    by_contra hne
    exact hoff ((hs.interest halive).mpr hne)
  rw [← hs.bytes halive, hempty, List.append_nil]

/-- While the connection is up, `SHUT_WR` is sent between two messages. -/
theorem shutdownInLoop_outgoing (h : Outgoing s)
    (hall : s.conn.state ≠ .kDisconnected → ¬s.conn.channel.isWriting = true →
      s.written = s.handled.flatMap Prod.snd) : Outgoing (shutdownInLoop s) := by
  unfold shutdownInLoop
  split
  · exact h
  next hoff =>
    refine ⟨h.out, h.quiet, fun halive n hn => ?_⟩
    cases hshut : s.shutWr with
    | nil =>
        -- the first one, behind all the messages so far
        dsimp only at hn
        rw [hshut] at hn
        cases hn
        exact ⟨Nat.le_refl _, s.handled, List.prefix_refl _, by
          rw [List.take_length]
          exact hall halive hoff⟩
    | cons first more =>
        dsimp only at hn
        rw [hshut] at hn
        exact h.whole halive n (by rw [hshut]; exact hn)

theorem shutdown_outgoing (hs : Stream s) (h : Outgoing s) (tid : ThreadId) :
    Outgoing (shutdown s tid) := by
  unfold shutdown
  split
  next hstate =>
    have halive : s.conn.state ≠ .kDisconnected := by
      rw [hstate]
      simp
    have hset : Outgoing (s.setState .kDisconnecting) :=
      h.of_keeps (keeps_of_alive rfl rfl rfl halive (by simp [World.setState]))
    have hstream : Stream (s.setState .kDisconnecting) := hs.of_same (setState_same fun _ => halive)
    dsimp only
    split
    · exact shutdownInLoop_outgoing hset hstream.written_eq
    · exact hset.of_keeps (keeps_of_same rfl rfl rfl rfl rfl)
  · exact h

/-- `forceClose` and `forceCloseWithDelay` only set the state, and queue or wait. -/
theorem setState_kDisconnecting_keeps
    (h : s.conn.state = .kConnected ∨ s.conn.state = .kDisconnecting) :
    Keeps s (s.setState .kDisconnecting) := by
  refine keeps_of_alive rfl rfl rfl ?_ (by simp [World.setState])
  rcases h with h | h <;> simp [h]

theorem forceClose_keeps : Keeps s (forceClose s) := by
  unfold forceClose
  split
  next hstate => exact (setState_kDisconnecting_keeps hstate).trans (keeps_of_same rfl rfl rfl rfl rfl)
  · exact Keeps.refl s

theorem forceCloseWithDelay_keeps : Keeps s (forceCloseWithDelay s) := by
  unfold forceCloseWithDelay
  split
  next hstate => exact (setState_kDisconnecting_keeps hstate).trans (keeps_of_same rfl rfl rfl rfl rfl)
  · exact Keeps.refl s

theorem enableReading_keeps : Keeps s (s.onChannel Channel.enableReading) := by
  refine keeps_of_same rfl rfl rfl rfl ?_
  simp only [World.onChannel, Channel.isWriting, Channel.enableReading, Channel.setEvents_events]

theorem startReadInLoop_keeps : Keeps s (startReadInLoop s) := by
  unfold startReadInLoop
  split
  · exact enableReading_keeps.trans (keeps_of_same rfl rfl rfl rfl rfl)
  · exact Keeps.refl s

/-- A connection that goes down gives up its interest. -/
theorem disconnect_keeps : Keeps s ((s.setState .kDisconnected).onChannel Channel.disableAll) := by
  refine ⟨rfl, rfl, rfl, fun h => absurd rfl h, fun _ => .inl ?_⟩
  simp only [World.onChannel, Channel.isWriting, Channel.disableAll, Channel.setEvents_events]
  rfl

/-! ## Sending -/

theorem sendMessage_outgoing {tid : ThreadId} {message : List UInt8} {r : WriteResult}
    (h : Outgoing s) (ht : Stream (sendMessage s tid message r)) :
    Outgoing (sendMessage s tid message r) := by
  have hstate : (sendMessage s tid message r).conn.state = s.conn.state :=
    (sendMessage_steady tid message r).state
  by_cases halive : s.conn.state = .kDisconnected
  · -- given up
    have hsend : sendMessage s tid message r = { s with handled := s.handled ++ [(tid, message)] } := by
      simp only [sendMessage, sendInLoop, if_pos halive]
    rw [hsend]
    refine ⟨h.out.trans ?_, h.quiet, fun hup => absurd halive hup⟩
    rw [List.flatMap_append]
    exact List.prefix_append _ _
  · have hshut : (sendMessage s tid message r).shutWr = s.shutWr := (sendInLoop_notifies message r).shutWr
    have halive' : (sendMessage s tid message r).conn.state ≠ .kDisconnected := hstate ▸ halive
    refine ⟨?_, fun hdown => absurd hdown halive', fun _ n hn => ?_⟩
    · rw [← ht.bytes halive']
      exact List.prefix_append _ _
    · rw [hshut] at hn
      exact (h.whole halive n hn).mono (sendMessage_grows tid message r)

theorem send_outgoing (hs : Stream s) (h : Outgoing s) (tid : ThreadId) (message : List UInt8)
    {r : WriteResult} (hr : r.Survives) : Outgoing (send s tid message r) := by
  have ht := send_stream hs tid message hr
  unfold send at ht ⊢
  split
  next hstate =>
    rw [if_pos hstate] at ht
    have hsent : Outgoing { s with sent := s.sent ++ [(tid, message)] } :=
      h.of_keeps (keeps_of_same rfl rfl rfl rfl rfl)
    dsimp only at ht ⊢
    split
    next hloop =>
      rw [if_pos hloop] at ht
      exact sendMessage_outgoing hsent ht
    · exact hsent.of_keeps (keeps_of_same rfl rfl rfl rfl rfl)
  · exact h

/-! ## Calls and handlers -/

/-- Both invariants of the output. -/
def Flows (s : World) : Prop := Stream s ∧ Outgoing s

theorem call_flows (h : Flows s) (tid : ThreadId) {c : Call} (hc : c.Survives) :
    Flows (call tid s c) := by
  refine ⟨call_stream h.1 tid hc, ?_⟩
  cases c with
  | send message r => exact send_outgoing h.1 h.2 tid message hc
  | sendBuffer buf r =>
      simp only [call, sendBuffer]
      split
      · exact send_outgoing h.1 h.2 tid buf.readable hc
      · exact h.2
  | shutdown => exact shutdown_outgoing h.1 h.2 tid
  | forceClose => exact h.2.of_keeps forceClose_keeps
  | forceCloseWithDelay => exact h.2.of_keeps forceCloseWithDelay_keeps
  | startRead =>
      simp only [call, startRead]
      split
      · exact h.2.of_keeps startReadInLoop_keeps
      · exact h.2.of_keeps (keeps_of_same rfl rfl rfl rfl rfl)
  | stopRead =>
      simp only [call, stopRead]
      split <;> exact h.2.of_keeps (keeps_of_same rfl rfl rfl rfl rfl)
  | retrieve len => exact h.2.of_keeps (keeps_of_same rfl rfl rfl rfl rfl)

theorem userCallback_flows {calls : List Call} (hcalls : ∀ c ∈ calls, c.Survives) (h : Flows s)
    (c : Callback) : Flows (userCallback s c calls) := by
  have hcalled : Flows (s.callback c) :=
    ⟨h.1.of_same ⟨rfl, rfl, rfl, rfl, fun h => ⟨h, rfl, rfl⟩⟩,
      h.2.of_keeps (keeps_of_same rfl rfl rfl rfl rfl)⟩
  exact List.foldlRecOn calls (call loopThread) hcalled fun _ hs c hc => call_flows hs _ (hcalls c hc)

theorem handleClose_flows {calls : List Call} (hcalls : ∀ c ∈ calls, c.Survives) (h : Flows s) :
    Flows (handleClose s calls) := by
  refine ⟨handleClose_stream hcalls h.1, ?_⟩
  have hchecked : Flows (s.check (s.conn.state = .kConnected ∨ s.conn.state = .kDisconnecting)
      .handleClose) :=
    ⟨h.1.of_same ⟨rfl, rfl, rfl, rfl, fun h => ⟨h, rfl, rfl⟩⟩,
      h.2.of_keeps (keeps_of_same rfl rfl rfl rfl rfl)⟩
  have hdown : Flows (((s.check (s.conn.state = .kConnected ∨ s.conn.state = .kDisconnecting)
      .handleClose).setState .kDisconnected).onChannel Channel.disableAll) :=
    ⟨hchecked.1.of_same disconnect_same, hchecked.2.of_keeps disconnect_keeps⟩
  have hcalled := userCallback_flows hcalls hdown (.connection false)
  exact hcalled.2.of_keeps (keeps_of_same rfl rfl rfl rfl rfl)

theorem handleRead_flows {calls : List Call} (hcalls : ∀ c ∈ calls, c.Survives) (h : Flows s)
    (r : Except Nat (List UInt8)) : Flows (handleRead s r calls) := by
  unfold handleRead
  have hread : ∀ x : Checked Buffer.Assert (Except Nat Nat × Buffer),
      Flows { s with
        conn := { s.conn with inputBuffer := x.val.2 }
        faults := s.faults ++ x.faults.map .buffer } :=
    fun x => ⟨h.1.of_same ⟨rfl, rfl, rfl, rfl, fun h => ⟨h, rfl, rfl⟩⟩,
      h.2.of_keeps (keeps_of_same rfl rfl rfl rfl rfl)⟩
  dsimp only
  split
  · exact userCallback_flows hcalls (hread _) .message
  · exact handleClose_flows hcalls (hread _)
  · exact hread _

theorem drainOutput_outgoing (h : Flows s) (hwriting : s.conn.channel.isWriting = true) (n : Nat) :
    Outgoing (drainOutput s (.ok n)) := by
  have halive : s.conn.state ≠ .kDisconnected := by
    intro hdown
    rw [h.2.quiet hdown] at hwriting
    cases hwriting
  obtain ⟨hsends, -, hput, -⟩ := drainOutput_spec h.1 n
  have halive' : (drainOutput s (.ok n)).conn.state ≠ .kDisconnected := hsends.state ▸ halive
  refine ⟨?_, fun hdown => absurd hdown halive', fun _ k hk => ?_⟩
  · rw [hsends.handled, ← h.1.bytes halive, ← hput]
    exact List.prefix_append _ _
  · exact (h.2.whole halive k hk).mono (drainOutput_grows (.ok n))

theorem outputDrained_outgoing (h : Outgoing s)
    (hall : s.conn.state ≠ .kDisconnected → s.written = s.handled.flatMap Prod.snd) :
    Outgoing (outputDrained s) := by
  have hoff : Outgoing (s.onChannel Channel.disableWriting) := by
    apply h.of_keeps
    refine ⟨rfl, rfl, rfl, id, fun _ => .inl ?_⟩
    simp only [World.onChannel, Channel.isWriting, Channel.disableWriting, Channel.setEvents_events]
  unfold outputDrained
  dsimp only
  -- with a write-complete callback and without
  split
  · have hqueued : Outgoing ((s.onChannel Channel.disableWriting).queueInLoop .writeCompleteCallback) :=
      hoff.of_keeps (keeps_of_same rfl rfl rfl rfl rfl)
    split
    · exact shutdownInLoop_outgoing hqueued fun halive _ => hall halive
    · exact hqueued
  · split
    · exact shutdownInLoop_outgoing hoff fun halive _ => hall halive
    · exact hoff

theorem handleWrite_flows (h : Flows s) (n : Nat) : Flows (handleWrite s (.ok n)) := by
  refine ⟨handleWrite_stream h.1 n, ?_⟩
  unfold handleWrite
  split
  next hwriting =>
    have hdrained := drainOutput_outgoing h hwriting n
    dsimp only
    split
    next => exact hdrained
    next hempty =>
      obtain ⟨hsends, hbuf, hput, -⟩ := drainOutput_spec h.1 n
      have hnil : (drainOutput s (.ok n)).conn.outputBuffer.readable = [] :=
        (Buffer.readable_eq_nil_iff hbuf).mpr (by simpa using hempty)
      rw [hnil, List.append_nil] at hput
      apply outputDrained_outgoing hdrained
      intro halive
      rw [hput, hsends.handled]
      exact h.1.bytes (hsends.state ▸ halive)
  · exact h.2

theorem connectDestroyed_flows {calls : List Call} (hcalls : ∀ c ∈ calls, c.Survives) (h : Flows s) :
    Flows (connectDestroyed s calls) := by
  refine ⟨connectDestroyed_stream hcalls h.1, ?_⟩
  have hdown : Outgoing (if s.conn.state = .kConnected then
      connectionCallback ((s.setState .kDisconnected).onChannel Channel.disableAll) calls
      else s) := by
    split
    · exact (userCallback_flows hcalls ⟨h.1.of_same disconnect_same, h.2.of_keeps disconnect_keeps⟩ _).2
    · exact h.2
  exact hdown.of_keeps (keeps_of_same rfl rfl rfl rfl rfl)

theorem runFunctor_flows {f : Functor} {fs : List Functor} (hfs : s.functors = f :: fs)
    (h : Flows s) {r : WriteResult} (hr : r.Survives) {calls : List Call}
    (hcalls : ∀ c ∈ calls, c.Survives) : Flows (runFunctor { s with functors := fs } f r calls) := by
  have hstream := runFunctor_stream hfs h.1 hr hcalls
  have htaken : Outgoing { s with functors := fs } := h.2.of_keeps (keeps_of_same rfl rfl rfl rfl rfl)
  have hqueue : s.queuedSends = f.send?.toList ++ { s with functors := fs }.queuedSends := by
    cases hf : f.send? <;> simp [World.queuedSends, hfs, hf]
  have hsame (hf : f.send? = none) : Flows { s with functors := fs } := by
    refine ⟨h.1.of_same ⟨rfl, rfl, rfl, ?_, fun h => ⟨h, rfl, rfl⟩⟩, htaken⟩
    rw [hqueue, hf, Option.toList_none, List.nil_append]
  refine ⟨hstream, ?_⟩
  cases f with
  | sendInLoop tid message => exact sendMessage_outgoing htaken hstream
  | shutdownInLoop => exact shutdownInLoop_outgoing htaken (hsame rfl).1.written_eq
  | forceCloseInLoop =>
      simp only [runFunctor, forceCloseInLoop]
      split
      · exact (handleClose_flows hcalls (hsame rfl)).2
      · exact htaken
  | startReadInLoop => exact htaken.of_keeps startReadInLoop_keeps
  | stopReadInLoop => exact htaken.of_keeps (keeps_of_same rfl rfl rfl rfl rfl)
  | writeCompleteCallback => exact (userCallback_flows hcalls (hsame rfl) _).2
  | highWaterMarkCallback size => exact (userCallback_flows hcalls (hsame rfl) _).2
  | connectDestroyed => exact (connectDestroyed_flows hcalls (hsame rfl)).2

theorem step_flows (h : Flows s) {a : Action} (ha : a.Survives) (hstep : step s a = some t) :
    Flows t := by
  refine ⟨step_stream h.1 ha hstep, ?_⟩
  obtain ⟨-, hsteps⟩ := steps_of_step hstep
  cases hsteps with
  | connectEstablished calls hstate =>
      have hup : s.conn.state ≠ .kDisconnected := by
        rw [hstate]
        simp
      have hset : Keeps s (((s.check (s.conn.state = .kConnecting) .connectEstablished).setState
          .kConnected).onChannel Channel.enableReading) :=
        Keeps.trans (t := (s.check (s.conn.state = .kConnecting) .connectEstablished).setState .kConnected)
          (keeps_of_alive rfl rfl rfl hup (by simp [World.setState])) enableReading_keeps
      have hstream : SameOutput s (((s.check (s.conn.state = .kConnecting)
          .connectEstablished).setState .kConnected).onChannel Channel.enableReading) :=
        SameOutput.trans (t := (s.check (s.conn.state = .kConnecting) .connectEstablished).setState
          .kConnected) ⟨rfl, rfl, rfl, rfl, fun _ => ⟨hup, rfl, rfl⟩⟩ enableReading_same
      exact (userCallback_flows ha ⟨h.1.of_same hstream, h.2.of_keeps hset⟩ _).2
  | call tid c => exact (call_flows h tid ha).2
  | handleEvent revents i hidle hkernel =>
      obtain ⟨hclose, hread, n, hn⟩ := ha
      apply (handleEvent_keeps (P := Flows) ?_ ?_ ?_ h revents).2
      · exact fun s hs => handleClose_flows hclose hs
      · exact fun s hs => handleRead_flows hread hs i.read
      · intro s hs
        rw [hn]
        exact handleWrite_flows hs n
  | swapFunctors hidle => exact h.2.of_keeps (keeps_of_same rfl rfl rfl rfl rfl)
  | runFunctor r calls f fs hfs => exact (runFunctor_flows hfs h ha.1 ha.2).2
  | forceCloseTimer hdelayed =>
      exact h.2.of_keeps (Keeps.trans (t := { s with delayed := s.delayed - 1 })
        (keeps_of_same rfl rfl rfl rfl rfl) forceClose_keeps)
  | removeConnection hclosing => exact h.2.of_keeps (keeps_of_same rfl rfl rfl rfl rfl)

theorem newConnection_flows (self fd : Nat) (epoll : Epoll) (wc hw : Bool) (mark : Nat) :
    Flows (newConnection self fd epoll wc hw mark) :=
  ⟨newConnection_stream self fd epoll wc hw mark, ⟨List.nil_prefix, nofun, fun _ _ hn => by cases hn⟩⟩

end TcpConnection
end Youth.Net
