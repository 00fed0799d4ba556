/-
  Youth.Net.TcpConnection.Graceful

  The half-close comes behind the last byte, and at once behind it.

  `SHUT_WR` has two origins: `shutdown()` when no output waits, and otherwise the
  writable event that writes the last of it.  The channel's write interest decides
  between them, and by `Stream` it is there exactly while bytes are buffered.  So in
  every state the connection has been shut for writing iff `shutdown()` was called and
  nothing is buffered (`Draining`), and the bytes out at that moment are the bytes out
  ever after.

  The runs are those of the loop thread on its own: sends and shutdowns (the calls of a
  callback are steps behind it), writable events, and the queued user callbacks.
-/

import Youth.Net.TcpConnection.OutputStream

namespace Youth.Net

/-- A user callback in the queue, as against work of the connection itself. -/
def Functor.IsCallback : Functor → Prop
  | .writeCompleteCallback => True
  | .highWaterMarkCallback _ => True
  | _ => False

namespace TcpConnection

open Youth.Lib

def Call.Graceful : Call → Prop
  | .send _ r => r.Survives
  | .sendBuffer _ r => r.Survives
  | .shutdown => True
  | _ => False

/-- Sends and shutdowns in the loop thread, and writable events whose `::write` does not
    fail; around them the loop sets up the connection and runs its callbacks. -/
inductive Action.Graceful : Action → Prop
  | connectEstablished : Graceful (.connectEstablished [])
  | call {c : Call} (hc : c.Graceful) : Graceful (.call loopThread c)
  | writable (n : Nat) : Graceful (.handleEvent { epollout := true } { write := .ok n })
  | swapFunctors : Graceful .swapFunctors
  | runFunctor (r : WriteResult) : Graceful (.runFunctor r [])

/-- `SHUT_WR` is out iff the connection is closing and nothing is buffered, and then no
    byte has followed it. -/
structure Draining (s : World) : Prop where
  stream : Stream s
  /-- No send waits in the queue. -/
  handled : s.handled = s.sent
  alive : s.conn.state ≠ .kDisconnected
  callbacks : ∀ f ∈ s.functors ++ s.pendingFunctors, f.IsCallback
  shut : s.shutWr =
    if s.conn.state = .kDisconnecting ∧ s.conn.outputBuffer.readable = [] then [s.written.length]
    else []

variable {s t u : World}

theorem Draining.bytes (h : Draining s) :
    s.written ++ s.conn.outputBuffer.readable = s.sent.flatMap Prod.snd := by
  rw [← h.handled]
  exact h.stream.bytes h.alive

theorem Draining.interest (h : Draining s) :
    s.conn.channel.isWriting = true ↔ s.conn.outputBuffer.readable ≠ [] :=
  h.stream.interest h.alive

theorem Draining.shut_of_pending (h : Draining s) (hne : s.conn.outputBuffer.readable ≠ []) :
    s.shutWr = [] := by
  rw [h.shut, if_neg fun hdone => hne hdone.2]

theorem Draining.shut_of_connected (h : Draining s) (hstate : s.conn.state ≠ .kDisconnecting) :
    s.shutWr = [] := by
  rw [h.shut, if_neg fun hdone => hstate hdone.1]

/-! ## Sending -/

/-- Nothing is shut down on the way, and only user callbacks are queued. -/
structure Notifies (s t : World) : Prop where
  shutWr : t.shutWr = s.shutWr
  callbacks : (∀ f ∈ s.functors ++ s.pendingFunctors, f.IsCallback) →
    ∀ f ∈ t.functors ++ t.pendingFunctors, f.IsCallback

theorem Notifies.refl (s : World) : Notifies s s := ⟨rfl, fun h => h⟩

theorem Notifies.trans (h : Notifies s t) (h' : Notifies t u) : Notifies s u :=
  ⟨h'.shutWr.trans h.shutWr, fun hs => h'.callbacks (h.callbacks hs)⟩

theorem queueInLoop_notifies {f : Functor} (hf : f.IsCallback) : Notifies s (s.queueInLoop f) where
  shutWr := rfl
  callbacks := by
    intro h g hg
    have hg' : g ∈ (s.functors ++ s.pendingFunctors) ++ [f] := by
      rw [List.append_assoc]
      exact hg
    rcases List.mem_append.mp hg' with hg | hg
    · exact h g hg
    · rw [List.mem_singleton.mp hg]
      exact hf

theorem writeDirectly_notifies (data : List UInt8) (r : WriteResult) :
    Notifies s (writeDirectly s data r).1 := by
  unfold writeDirectly
  split
  · cases r with
    | ok n =>
        dsimp only
        split
        · exact ⟨rfl, (queueInLoop_notifies (s := s) (f := .writeCompleteCallback) trivial).callbacks⟩
        · exact ⟨rfl, fun h => h⟩
    | error errno => exact Notifies.refl s
  · exact Notifies.refl s

theorem appendOutput_notifies (rest : List UInt8) : Notifies s (appendOutput s rest) := by
  obtain ⟨s1, hs1, hmark⟩ : ∃ s1, (if s.conn.highWaterMark ≤
      s.conn.outputBuffer.readableBytes + rest.length ∧
      s.conn.outputBuffer.readableBytes < s.conn.highWaterMark ∧ s.conn.highWaterMarkCallback then
        s.queueInLoop (.highWaterMarkCallback (s.conn.outputBuffer.readableBytes + rest.length))
      else s) = s1 ∧ Notifies s s1 := by
    split
    · exact ⟨_, rfl, queueInLoop_notifies trivial⟩
    · exact ⟨_, rfl, Notifies.refl s⟩
  simp only [appendOutput, hs1]
  refine hmark.trans ?_
  split
  · exact ⟨rfl, fun h => h⟩
  · exact ⟨rfl, fun h => h⟩

theorem sendInLoop_notifies (data : List UInt8) (r : WriteResult) :
    Notifies s (sendInLoop s data r) := by
  unfold sendInLoop
  split
  · exact Notifies.refl s
  · have hattempt := writeDirectly_notifies (s := s) data r
    dsimp only
    split
    · exact hattempt.trans (appendOutput_notifies _)
    · exact hattempt

/-- A connected one stays connected, with the message behind the others. -/
theorem send_draining (h : Draining s) (message : List UInt8) {r : WriteResult} (hr : r.Survives) :
    Draining (send s loopThread message r) ∧
      (s.conn.state = .kConnected → (send s loopThread message r).conn.state = .kConnected) ∧
      (s.conn.state ≠ .kConnected → send s loopThread message r = s) := by
  have hstream := send_stream h.stream loopThread message hr
  by_cases hstate : s.conn.state = .kConnected
  · have hsend : send s loopThread message r =
        sendMessage { s with sent := s.sent ++ [(loopThread, message)] } loopThread message r := by
      simp [send, hstate]
    obtain ⟨hsends, -, -, -⟩ := sendInLoop_spec (s := { s with sent := s.sent ++ [(loopThread, message)] })
      h.stream.buffer h.alive h.interest message hr
    have hnotifies := sendInLoop_notifies (s := { s with sent := s.sent ++ [(loopThread, message)] })
      message r
    have hstate' : (send s loopThread message r).conn.state = .kConnected := by
      rw [hsend]
      exact hsends.state.trans hstate
    refine ⟨⟨hstream, ?_, ?_, ?_, ?_⟩, fun _ => hstate', fun hne => absurd hstate hne⟩
    · rw [hsend]
      show s.handled ++ [(loopThread, message)] = (sendInLoop _ message r).sent
      rw [hsends.sent, h.handled]
    · rw [hstate']
      decide
    · rw [hsend]
      exact hnotifies.callbacks h.callbacks
    · rw [if_neg (by simp [hstate']), hsend]
      exact hnotifies.shutWr.trans (h.shut_of_connected (by rw [hstate]; decide))
  · have hsend : send s loopThread message r = s := by simp [send, hstate]
    rw [hsend]
    exact ⟨h, fun hc => absurd hc hstate, fun _ => rfl⟩

/-! ## Shutting down -/

theorem shutdown_draining (h : Draining s) (hstate : s.conn.state = .kConnected) :
    Draining (shutdown s loopThread) ∧
      (shutdown s loopThread).shutWr =
        if s.conn.outputBuffer.readable = [] then [s.written.length] else [] := by
  have hstream := h.stream.of_same (shutdown_same loopThread)
  have hnone := h.shut_of_connected (by rw [hstate]; decide)
  by_cases hnil : s.conn.outputBuffer.readable = []
  · have hoff : s.conn.channel.isWriting = false := by
      rw [← Bool.not_eq_true, h.interest]
      exact not_not_intro hnil
    have hshut : shutdown s loopThread =
        { s.setState .kDisconnecting with shutWr := [s.written.length] } := by
      simp [shutdown, hstate, shutdownInLoop, World.setState, hoff, hnone]
    rw [hshut] at hstream ⊢
    rw [if_pos hnil]
    exact ⟨⟨hstream, h.handled, by simp [World.setState], h.callbacks, (if_pos ⟨rfl, hnil⟩).symm⟩, rfl⟩
  · have hon := h.interest.mpr hnil
    have hshut : shutdown s loopThread = s.setState .kDisconnecting := by
      simp [shutdown, hstate, shutdownInLoop, World.setState, hon]
    rw [hshut] at hstream ⊢
    rw [if_neg hnil]
    refine ⟨⟨hstream, h.handled, by simp [World.setState], h.callbacks, ?_⟩, hnone⟩
    exact hnone.trans (if_neg fun hdone => hnil hdone.2).symm

theorem shutdown_of_not_connected (hstate : s.conn.state ≠ .kConnected) :
    shutdown s loopThread = s := by
  simp [shutdown, hstate]

/-! ## The writable event -/

/-- Once all is out, a closing connection is shut for writing. -/
theorem outputDrained_spec (s : World) :
    ∃ t, Notifies s t ∧ t.conn.state = s.conn.state ∧ t.written = s.written ∧
      t.conn.outputBuffer = s.conn.outputBuffer ∧ t.sent = s.sent ∧ t.handled = s.handled ∧
      outputDrained s =
        if s.conn.state = .kDisconnecting then { t with shutWr := s.shutWr ++ [s.written.length] }
        else t := by
  have hoff : Notifies s (s.onChannel Channel.disableWriting) := ⟨rfl, fun h => h⟩
  have hwriting : (s.onChannel Channel.disableWriting).conn.channel.isWriting = false := by
    simp only [World.onChannel, Channel.isWriting, Channel.disableWriting, Channel.setEvents_events]
  by_cases hwc : s.conn.writeCompleteCallback = true
  · refine ⟨(s.onChannel Channel.disableWriting).queueInLoop .writeCompleteCallback,
      hoff.trans (queueInLoop_notifies trivial), rfl, rfl, rfl, rfl, rfl, ?_⟩
    have hcallback : (s.onChannel Channel.disableWriting).conn.writeCompleteCallback = true := hwc
    have hidle : ((s.onChannel Channel.disableWriting).queueInLoop
      .writeCompleteCallback).conn.channel.isWriting = false := hwriting
    simp only [outputDrained, hcallback, if_true, shutdownInLoop, hidle, Bool.false_eq_true, if_false]
    rfl
  · refine ⟨s.onChannel Channel.disableWriting, hoff, rfl, rfl, rfl, rfl, rfl, ?_⟩
    have hcallback : ¬(s.onChannel Channel.disableWriting).conn.writeCompleteCallback = true := hwc
    simp only [outputDrained, hcallback, shutdownInLoop, hwriting, Bool.false_eq_true, if_false]
    rfl

theorem handleWrite_draining (h : Draining s) (hne : s.conn.outputBuffer.readable ≠ []) (n : Nat) :
    Draining (handleWrite s (.ok n)) ∧ (handleWrite s (.ok n)).conn.state = s.conn.state ∧
      (handleWrite s (.ok n)).sent = s.sent := by
  have hstream := handleWrite_stream h.stream n
  have hnone := h.shut_of_pending hne
  -- the drain itself: fewer bytes pending, everything else as it was
  obtain ⟨hsends, hbuf, -, -⟩ := drainOutput_spec h.stream n
  have hshut : (drainOutput s (.ok n)).shutWr = [] := hnone
  have hhandled : (drainOutput s (.ok n)).handled = (drainOutput s (.ok n)).sent := by
    rw [hsends.handled, hsends.sent]
    exact h.handled
  have halive : (drainOutput s (.ok n)).conn.state ≠ .kDisconnected := by
    rw [hsends.state]
    exact h.alive
  have hcallbacks : ∀ f ∈ (drainOutput s (.ok n)).functors ++ (drainOutput s (.ok n)).pendingFunctors,
      f.IsCallback := h.callbacks
  by_cases hleft : (drainOutput s (.ok n)).conn.outputBuffer.readableBytes = 0
  · have hnil := (Buffer.readable_eq_nil_iff hbuf).mpr hleft
    have hwrite : handleWrite s (.ok n) = outputDrained (drainOutput s (.ok n)) := by
      simp [handleWrite, h.interest.mpr hne, hleft]
    obtain ⟨t, hnotifies, hstate, hwritten, hout, hsent, hhandled', hdrained⟩ :=
      outputDrained_spec (drainOutput s (.ok n))
    rw [hwrite, hdrained] at hstream ⊢
    split at hstream
    next hclosing =>
      -- `shutdown()` was called before: this is the step that sends `SHUT_WR`
      rw [if_pos hclosing]
      refine ⟨⟨hstream, ?_, ?_, ?_, ?_⟩, hstate.trans hsends.state, hsent.trans hsends.sent⟩
      · show t.handled = t.sent
        rw [hhandled', hsent, hhandled]
      · show t.conn.state ≠ .kDisconnected
        rw [hstate]
        exact halive
      · exact hnotifies.callbacks hcallbacks
      · show (drainOutput s (.ok n)).shutWr ++ [(drainOutput s (.ok n)).written.length] =
          if t.conn.state = .kDisconnecting ∧ t.conn.outputBuffer.readable = [] then
            [t.written.length] else []
        rw [hshut, hstate, hout, hwritten, if_pos ⟨hclosing, hnil⟩, List.nil_append]
    next hopen =>
      rw [if_neg hopen]
      refine ⟨⟨hstream, ?_, ?_, hnotifies.callbacks hcallbacks, ?_⟩, hstate.trans hsends.state,
        hsent.trans hsends.sent⟩
      · rw [hhandled', hsent, hhandled]
      · rw [hstate]
        exact halive
      · rw [hnotifies.shutWr, hshut, hstate, if_neg fun hdone => hopen hdone.1]
  · -- bytes are left, and `SHUT_WR` waits with them
    have hmore : (drainOutput s (.ok n)).conn.outputBuffer.readable ≠ [] :=
      mt (Buffer.readable_eq_nil_iff hbuf).mp hleft
    have hwrite : handleWrite s (.ok n) = drainOutput s (.ok n) := by
      simp [handleWrite, h.interest.mpr hne, hleft]
    rw [hwrite] at hstream ⊢
    refine ⟨⟨hstream, hhandled, halive, hcallbacks, ?_⟩, hsends.state, hsends.sent⟩
    rw [hshut, if_neg fun hdone => hmore hdone.2]

/-! ## Whole runs -/

/-- `shutdown()` with nothing pending, or, after `shutdown()`, the last pending byte
    written. -/
def HalfCloses (s : World) (a : Action) (t : World) : Prop :=
  (a = .call loopThread .shutdown ∧ s.conn.state = .kConnected ∧ s.conn.outputBuffer.readable = []) ∨
  (s.conn.state = .kDisconnecting ∧ s.conn.outputBuffer.readable ≠ [] ∧
    t.written = s.written ++ s.conn.outputBuffer.readable)

/-- What one step does to the closing: only `shutdown()` starts it, and `SHUT_WR` is sent in
    the steps of `HalfCloses` and in no other. -/
structure Closing (s : World) (a : Action) (t : World) : Prop where
  starts : t.conn.state = .kDisconnecting ↔
    s.conn.state = .kDisconnecting ∨ (s.conn.state = .kConnected ∧ a = .call loopThread .shutdown)
  shuts : t.shutWr ≠ s.shutWr ↔ HalfCloses s a t

/-- A step that writes nothing, sends no `SHUT_WR` and is no `shutdown()` of a connected one. -/
theorem closing_of_same {a : Action}
    (hcall : a = .call loopThread .shutdown → s.conn.state ≠ .kConnected)
    (hstate : t.conn.state = .kDisconnecting ↔ s.conn.state = .kDisconnecting)
    (hwritten : t.written = s.written) (hshut : t.shutWr = s.shutWr) : Closing s a t where
  starts := by
    rw [hstate]
    refine ⟨Or.inl, fun h => ?_⟩
    rcases h with h | h
    · exact h
    · exact absurd h.1 (hcall h.2)
  shuts := by
    refine iff_of_false (not_not_intro hshut) fun h => ?_
    rcases h with h | h
    · exact hcall h.1 h.2.1
    · refine h.2.1 (List.append_cancel_left (h.2.2.symm.trans ?_))
      rw [hwritten, List.append_nil]

theorem send_closing (h : Draining s) (message : List UInt8) {r : WriteResult} (hr : r.Survives)
    {a : Action} (ha : a ≠ .call loopThread .shutdown) :
    Closing s a (send s loopThread message r) := by
  obtain ⟨hsent, hconnected, hother⟩ := send_draining h message hr
  by_cases hstate : s.conn.state = .kConnected
  · have hstate' := hconnected hstate
    constructor
    · simp [hstate, hstate', ha]
    · rw [h.shut_of_connected (by simp [hstate]), hsent.shut_of_connected (by simp [hstate'])]
      simp [HalfCloses, hstate, ha]
  · rw [hother hstate]
    exact closing_of_same (fun hcall => absurd hcall ha) Iff.rfl rfl rfl

theorem call_closing (h : Draining s) {c : Call} (hc : c.Graceful) :
    Draining (call loopThread s c) ∧ Closing s (.call loopThread c) (call loopThread s c) := by
  cases c with
  | send message r =>
      exact ⟨(send_draining h message hc).1, send_closing h message hc (by simp)⟩
  | sendBuffer buf r =>
      simp only [call, sendBuffer]
      split
      · exact ⟨(send_draining h buf.readable hc).1, send_closing h buf.readable hc (by simp)⟩
      · exact ⟨h, closing_of_same (by simp) Iff.rfl rfl rfl⟩
  | shutdown =>
      by_cases hstate : s.conn.state = .kConnected
      · obtain ⟨hdown, hshut⟩ := shutdown_draining h hstate
        have hdown' : (shutdown s loopThread).conn.state = .kDisconnecting := by
          simp only [shutdown, hstate, if_true, shutdownInLoop]
          split <;> rfl
        refine ⟨hdown, ?_, ?_⟩
        · exact iff_of_true hdown' (Or.inr ⟨hstate, rfl⟩)
        · show (shutdown s loopThread).shutWr ≠ s.shutWr ↔ _
          rw [hshut, h.shut_of_connected (by simp [hstate])]
          simp [HalfCloses, hstate]
      · have hsame : call loopThread s .shutdown = s := shutdown_of_not_connected hstate
        rw [hsame]
        exact ⟨h, closing_of_same (fun _ => hstate) Iff.rfl rfl rfl⟩
  | forceClose => exact absurd hc not_false
  | forceCloseWithDelay => exact absurd hc not_false
  | startRead => exact absurd hc not_false
  | stopRead => exact absurd hc not_false
  | retrieve len => exact absurd hc not_false

theorem handleWrite_closing (h : Draining s) (n : Nat) {a : Action}
    (ha : a ≠ .call loopThread .shutdown) :
    Draining (handleWrite s (.ok n)) ∧ Closing s a (handleWrite s (.ok n)) := by
  by_cases hnil : s.conn.outputBuffer.readable = []
  · have hoff : ¬s.conn.channel.isWriting = true := fun hon => h.interest.mp hon hnil
    have hsame : handleWrite s (.ok n) = s := by simp [handleWrite, hoff]
    rw [hsame]
    exact ⟨h, closing_of_same (fun hcall => absurd hcall ha) Iff.rfl rfl rfl⟩
  · obtain ⟨ht, hstate, hsent⟩ := handleWrite_draining h hnil n
    refine ⟨ht, ?_, ?_⟩
    · simp [hstate, ha]
    · -- what is written and what is left make the same bytes as before
      have hbytes : (handleWrite s (.ok n)).written ++
          (handleWrite s (.ok n)).conn.outputBuffer.readable =
          s.written ++ s.conn.outputBuffer.readable := by
        rw [ht.bytes, hsent, h.bytes]
      have hout : (handleWrite s (.ok n)).conn.outputBuffer.readable = [] ↔
          (handleWrite s (.ok n)).written = s.written ++ s.conn.outputBuffer.readable := by
        rw [← hbytes]
        simp
      rw [h.shut_of_pending hnil, ht.shut, hstate]
      simp [HalfCloses, ha, hnil, hout]

/-- A callback that leaves the connection alone only leaves the queue. -/
theorem runFunctor_closing (h : Draining s) {f : Functor} {fs : List Functor}
    (hfs : s.functors = f :: fs) (r : WriteResult) {a : Action}
    (ha : a ≠ .call loopThread .shutdown) :
    Draining (runFunctor { s with functors := fs } f r []) ∧
      Closing s a (runFunctor { s with functors := fs } f r []) := by
  have hqueue := h.callbacks
  rw [hfs, List.cons_append, List.forall_mem_cons] at hqueue
  obtain ⟨c, hc, hsend⟩ : ∃ c, runFunctor { s with functors := fs } f r [] =
      { s with functors := fs }.callback c ∧ f.send? = none := by
    cases f with
    | writeCompleteCallback => exact ⟨.writeComplete, rfl, rfl⟩
    | highWaterMarkCallback size => exact ⟨.highWaterMark size, rfl, rfl⟩
    | _ => exact absurd hqueue.1 not_false
  rw [hc]
  have hstream : Stream ({ s with functors := fs }.callback c) := by
    refine h.stream.of_same ⟨rfl, rfl, rfl, ?_, fun h => ⟨h, rfl, rfl⟩⟩
    simp [World.queuedSends, World.callback, hfs, hsend]
  exact ⟨⟨hstream, h.handled, h.alive, hqueue.2, h.shut⟩,
    closing_of_same (fun hcall => absurd hcall ha) Iff.rfl rfl rfl⟩

theorem step_closing (h : Draining s) {a : Action} (ha : a.Graceful) (hstep : step s a = some t) :
    Draining t ∧ Closing s a t := by
  obtain ⟨-, hsteps⟩ := steps_of_step hstep
  cases ha with
  | connectEstablished =>
      cases hsteps with
      | connectEstablished _ hstate =>
          have hnone := h.shut_of_connected (by simp [hstate])
          have ha : (Action.connectEstablished []).Survives := fun _ hc => by cases hc
          refine ⟨⟨step_stream h.stream ha hstep, h.handled, ?_, h.callbacks, hnone⟩, ?_⟩
          · exact fun hdown => by cases hdown
          · refine closing_of_same (by simp) ?_ rfl rfl
            refine iff_of_false (fun hclosing => by cases hclosing) ?_
            rw [hstate]
            decide
  | call hc =>
      cases hsteps with
      | call _ _ => exact call_closing h hc
  | writable n =>
      cases hsteps with
      | handleEvent _ _ _ _ => exact handleWrite_closing h n (by simp)
  | swapFunctors =>
      cases hsteps with
      | swapFunctors hidle =>
          have hstream := step_stream h.stream (a := .swapFunctors) trivial hstep
          refine ⟨⟨hstream, h.handled, h.alive, ?_, h.shut⟩, closing_of_same (by simp) Iff.rfl rfl rfl⟩
          simpa [hidle] using h.callbacks
  | runFunctor r =>
      cases hsteps with
      | runFunctor _ _ f fs hfs =>
          exact runFunctor_closing h hfs r (by simp)

theorem newConnection_draining (self fd : Nat) (epoll : Epoll) (wc hw : Bool) (mark : Nat) :
    Draining (newConnection self fd epoll wc hw mark) where
  stream := newConnection_stream self fd epoll wc hw mark
  handled := rfl
  alive := fun h => by cases h
  callbacks := fun _ hf => by cases hf
  shut := rfl

/-- **Graceful shutdown.**  In every state of a run of sends, shutdowns and writable events:
    `SHUT_WR` was sent behind exactly the messages that `send` took while connected, and
    nothing was written since; and a step sends it iff it is a `shutdown()` with nothing
    pending or, after `shutdown()`, the step that writes the last pending byte. -/
theorem graceful_shutdown (self fd : Nat) (epoll : Epoll) (wc hw : Bool) (mark : Nat)
    {actions : List Action} (hactions : ∀ a ∈ actions, a.Graceful) {s : World}
    (hrun : run step (newConnection self fd epoll wc hw mark) actions = some s) :
    (∀ n ∈ s.shutWr, s.written.take n = s.sent.flatMap Prod.snd ∧ s.written.length = n) ∧
      ∀ a t, a.Graceful → step s a = some t → Closing s a t := by
  have h : Draining s := run_invariant_of (fun _ _ _ ha hs hstep => (step_closing hs ha hstep).1)
    hactions (newConnection_draining self fd epoll wc hw mark) hrun
  refine ⟨fun n hn => ?_, fun a t ha hstep => (step_closing h ha hstep).2⟩
  rw [h.shut] at hn
  split at hn
  next hdone =>
    rw [List.mem_singleton] at hn
    rw [hn, List.take_length, ← h.bytes, hdone.2, List.append_nil]
    exact ⟨rfl, rfl⟩
  next => cases hn

/-- A short write, a shutdown behind it, a send that comes too late, and two writable
    events: the second sends `SHUT_WR`. -/
def halfClosed : List Action :=
  [.connectEstablished [], .call loopThread (.send [1, 2, 3] (.ok 1)), .call loopThread .shutdown,
    .call loopThread (.send [4] (.ok 1)), .handleEvent { epollout := true } { write := .ok 1 },
    .handleEvent { epollout := true } { write := .ok 9 }]

theorem graceful_shutdown_halfClosed :
    ∃ s, run step (newConnection 1 3 Epoll.empty true true 4) halfClosed = some s ∧
      s.shutWr = [3] ∧ s.written = [1, 2, 3] ∧
      (∀ n ∈ s.shutWr, s.written.take n = s.sent.flatMap Prod.snd ∧ s.written.length = n) ∧
      ∀ a t, a.Graceful → step s a = some t → Closing s a t := by
  have hsome : ((run step (newConnection 1 3 Epoll.empty true true 4) halfClosed).map
      fun s => (s.shutWr, s.written)) = some ([3], [1, 2, 3]) := by decide +kernel
  obtain ⟨s, hrun, hstate⟩ := Option.map_eq_some_iff.mp hsome
  have hgraceful : ∀ a ∈ halfClosed, a.Graceful := by
    have hok (n : Nat) : (WriteResult.ok n).Survives := by simp [WriteResult.Survives]
    intro a ha
    simp only [halfClosed, List.mem_cons, List.not_mem_nil, or_false] at ha
    rcases ha with rfl | rfl | rfl | rfl | rfl | rfl
    · exact .connectEstablished
    · exact .call (hok 1)
    · exact .call trivial
    · exact .call (hok 1)
    · exact .writable 1
    · exact .writable 9
  exact ⟨s, hrun, congrArg Prod.fst hstate, congrArg Prod.snd hstate,
    graceful_shutdown 1 3 Epoll.empty true true 4 hgraceful hrun⟩

end TcpConnection
end Youth.Net
