/-
  Youth.Net.TcpConnection.Closed

  A connection that has left `kConnected` does not come back to it and takes no further
  message.

  `send` and `shutdown` ask for `kConnected` first, and only `connectEstablished`, which
  is for new connections, sets it.  `Follows` states this of a piece of the connection's
  code, together with the fact that the piece leaves the input buffer alone; it is proved
  for every piece but the read itself and the calls that take bytes from that buffer.
-/

import Youth.Net.Buffer.Spec
import Youth.Net.TcpConnection.Basic

namespace Youth.Net
namespace TcpConnection

open World

/-- The connection was `kConnected` and is not any more. -/
def World.closed (s : World) : Prop := s.conn.state = .kDisconnecting ∨ s.conn.state = .kDisconnected

theorem not_connected_of_closed {s : World} (h : s.closed) : s.conn.state ≠ .kConnected := by
  rcases h with h | h <;> (rw [h]; decide)

/-- From `s` to `t` the input buffer is the same, and a closed connection stays closed and
    has taken no message. -/
structure Follows (s t : World) : Prop where
  input : t.conn.inputBuffer = s.conn.inputBuffer
  closed : s.closed → t.closed ∧ t.sent = s.sent

variable {s t u : World}

theorem Follows.refl (s : World) : Follows s s := ⟨rfl, fun h => ⟨h, rfl⟩⟩

theorem Follows.trans (h : Follows s t) (h' : Follows t u) : Follows s u := by
  refine ⟨h'.input.trans h.input, fun hs => ?_⟩
  obtain ⟨ht, hsent⟩ := h.closed hs
  obtain ⟨hu, hsent'⟩ := h'.closed ht
  exact ⟨hu, hsent'.trans hsent⟩

/-- The input buffer, the state and the messages taken are the same. -/
structure Steady (s t : World) : Prop where
  input : t.conn.inputBuffer = s.conn.inputBuffer
  state : t.conn.state = s.conn.state
  sent : t.sent = s.sent

theorem Steady.refl (s : World) : Steady s s := ⟨rfl, rfl, rfl⟩

theorem Steady.trans (h : Steady s t) (h' : Steady t u) : Steady s u :=
  ⟨h'.input.trans h.input, h'.state.trans h.state, h'.sent.trans h.sent⟩

theorem Steady.follows (h : Steady s t) : Follows s t := by
  refine ⟨h.input, fun hs => ⟨?_, h.sent⟩⟩
  rwa [World.closed, h.state]

theorem follows_of_same (hinput : t.conn.inputBuffer = s.conn.inputBuffer)
    (hstate : t.conn.state = s.conn.state) (hsent : t.sent = s.sent) : Follows s t :=
  Steady.follows ⟨hinput, hstate, hsent⟩

/-- The connection is closed on the way. -/
theorem follows_of_closed (hinput : t.conn.inputBuffer = s.conn.inputBuffer) (hclosed : t.closed)
    (hsent : t.sent = s.sent) : Follows s t := ⟨hinput, fun _ => ⟨hclosed, hsent⟩⟩

/-! ## Sending -/

theorem writeDirectly_steady (data : List UInt8) (r : WriteResult) :
    Steady s (writeDirectly s data r).1 := by
  unfold writeDirectly
  split
  · cases r with
    | ok n =>
        dsimp only
        split <;> exact ⟨rfl, rfl, rfl⟩
    | error errno => exact Steady.refl s
  · exact Steady.refl s

theorem appendOutput_steady (rest : List UInt8) : Steady s (appendOutput s rest) := by
  unfold appendOutput
  dsimp only
  split <;> split <;> exact ⟨rfl, rfl, rfl⟩

theorem sendInLoop_steady (data : List UInt8) (r : WriteResult) :
    Steady s (sendInLoop s data r) := by
  unfold sendInLoop
  split
  · exact Steady.refl s
  · dsimp only
    split
    · exact (writeDirectly_steady data r).trans (appendOutput_steady _)
    · exact writeDirectly_steady data r

theorem sendMessage_steady (tid : ThreadId) (message : List UInt8) (r : WriteResult) :
    Steady s (sendMessage s tid message r) :=
  (sendInLoop_steady message r).trans ⟨rfl, rfl, rfl⟩

/-- Sending leaves the state as it is. -/
theorem send_state (tid : ThreadId) (message : List UInt8) (r : WriteResult) :
    (send s tid message r).conn.state = s.conn.state := by
  unfold send
  split
  · dsimp only
    split
    · exact (sendMessage_steady (s := { s with sent := s.sent ++ [(tid, message)] }) tid message r).state
    · rfl
  · rfl

/-- A message of a closed connection is dropped. -/
theorem send_follows (tid : ThreadId) (message : List UInt8) (r : WriteResult) :
    Follows s (send s tid message r) := by
  by_cases hstate : s.conn.state = .kConnected
  · -- a message is taken, but not by a closed connection
    refine ⟨?_, fun h => absurd hstate (not_connected_of_closed h)⟩
    rw [send, if_pos hstate]
    dsimp only
    split
    · exact (sendMessage_steady (s := { s with sent := s.sent ++ [(tid, message)] }) tid message r).input
    · rfl
  · rw [send, if_neg hstate]
    exact Follows.refl s

/-! ## Closing -/

theorem shutdownInLoop_follows : Follows s (shutdownInLoop s) := by
  unfold shutdownInLoop
  split <;> exact follows_of_same rfl rfl rfl

theorem shutdown_follows (tid : ThreadId) : Follows s (shutdown s tid) := by
  unfold shutdown
  split
  · -- the state is set at once; `shutdownInLoop` may come later
    have hset : Follows s (s.setState .kDisconnecting) := follows_of_closed rfl (.inl rfl) rfl
    dsimp only
    split
    · exact hset.trans shutdownInLoop_follows
    · exact hset.trans (follows_of_same rfl rfl rfl)
  · exact Follows.refl s

/-- Behind `shutdown` no connection is `kConnected`. -/
theorem shutdown_closes (tid : ThreadId) (h : s.conn.state = .kConnected) : (shutdown s tid).closed := by
  have hset : (s.setState .kDisconnecting).closed := .inl rfl
  rw [shutdown, if_pos h]
  dsimp only
  split
  · exact (shutdownInLoop_follows.closed hset).1
  · exact hset

theorem forceClose_follows : Follows s (forceClose s) := by
  unfold forceClose
  split
  · exact follows_of_closed rfl (.inl rfl) rfl
  · exact Follows.refl s

theorem forceCloseWithDelay_follows : Follows s (forceCloseWithDelay s) := by
  unfold forceCloseWithDelay
  split
  · exact follows_of_closed rfl (.inl rfl) rfl
  · exact Follows.refl s

theorem startReadInLoop_follows : Follows s (startReadInLoop s) := by
  unfold startReadInLoop
  split <;> exact follows_of_same rfl rfl rfl

/-- The call takes nothing out of the input buffer. -/
def Call.leavesInput : Call → Bool
  | .retrieve _ => false
  | _ => true

theorem call_follows (tid : ThreadId) {c : Call} (hc : c.leavesInput = true) :
    Follows s (call tid s c) := by
  cases c with
  | send message r => exact send_follows tid message r
  | sendBuffer buf r =>
      simp only [call, sendBuffer]
      split
      · exact send_follows tid buf.readable r
      · exact Follows.refl s
  | shutdown => exact shutdown_follows tid
  | forceClose => exact forceClose_follows
  | forceCloseWithDelay => exact forceCloseWithDelay_follows
  | startRead =>
      simp only [call, startRead]
      split
      · exact startReadInLoop_follows
      · exact follows_of_same rfl rfl rfl
  | stopRead =>
      simp only [call, stopRead]
      split <;> exact follows_of_same rfl rfl rfl
  | retrieve len => cases hc

theorem calls_follows {calls : List Call} (hcalls : calls.all Call.leavesInput = true) (s : World) :
    Follows s (calls.foldl (call loopThread) s) := by
  induction calls generalizing s with
  | nil => exact Follows.refl s
  | cons c calls ih =>
      rw [List.all_cons, Bool.and_eq_true] at hcalls
      exact (call_follows loopThread hcalls.1).trans (ih hcalls.2 _)

/-! ## Handlers -/

theorem userCallback_follows (c : Callback) {calls : List Call}
    (hcalls : calls.all Call.leavesInput = true) : Follows s (userCallback s c calls) :=
  Follows.trans (t := s.callback c) (follows_of_same rfl rfl rfl) (calls_follows hcalls _)

/-- State, events and callback of a connection that goes down. -/
theorem disconnect_follows {calls : List Call} (hcalls : calls.all Call.leavesInput = true) :
    Follows s (connectionCallback ((s.setState .kDisconnected).onChannel Channel.disableAll) calls) :=
  Follows.trans (t := (s.setState .kDisconnected).onChannel Channel.disableAll)
    (follows_of_closed rfl (.inr rfl) rfl) (userCallback_follows _ hcalls)

theorem handleClose_follows {calls : List Call} (hcalls : calls.all Call.leavesInput = true) :
    Follows s (handleClose s calls) := by
  have hchecked : Follows s (s.check (s.conn.state = .kConnected ∨ s.conn.state = .kDisconnecting)
      .handleClose) := follows_of_same rfl rfl rfl
  exact (hchecked.trans (disconnect_follows hcalls)).trans (follows_of_same rfl rfl rfl)

theorem connectDestroyed_follows {calls : List Call} (hcalls : calls.all Call.leavesInput = true) :
    Follows s (connectDestroyed s calls) := by
  unfold connectDestroyed
  dsimp only
  split
  · exact (disconnect_follows hcalls).trans (follows_of_same rfl rfl rfl)
  · exact follows_of_same rfl rfl rfl

theorem outputDrained_follows : Follows s (outputDrained s) := by
  unfold outputDrained
  dsimp only
  -- with a write-complete callback and without; going down or not
  split <;> split
  · refine Follows.trans ?_ shutdownInLoop_follows
    exact follows_of_same rfl rfl rfl
  · exact follows_of_same rfl rfl rfl
  · refine Follows.trans ?_ shutdownInLoop_follows
    exact follows_of_same rfl rfl rfl
  · exact follows_of_same rfl rfl rfl

theorem handleWrite_follows (r : WriteResult) : Follows s (handleWrite s r) := by
  unfold handleWrite
  split
  · have hdrain : Follows s (drainOutput s r) := by
      cases r with
      | ok n => exact follows_of_same rfl rfl rfl
      | error errno => exact follows_of_same rfl rfl rfl
    dsimp only
    split
    · exact hdrain
    · exact hdrain.trans outputDrained_follows
  · exact Follows.refl s

theorem runFunctor_follows (f : Functor) (r : WriteResult) {calls : List Call}
    (hcalls : calls.all Call.leavesInput = true) : Follows s (runFunctor s f r calls) := by
  cases f with
  | sendInLoop tid message => exact (sendMessage_steady tid message r).follows
  | shutdownInLoop => exact shutdownInLoop_follows
  | forceCloseInLoop =>
      simp only [runFunctor, forceCloseInLoop]
      split
      · exact handleClose_follows hcalls
      · exact Follows.refl s
  | startReadInLoop => exact startReadInLoop_follows
  | stopReadInLoop => exact follows_of_same rfl rfl rfl
  | writeCompleteCallback => exact userCallback_follows _ hcalls
  | highWaterMarkCallback size => exact userCallback_follows _ hcalls
  | connectDestroyed => exact connectDestroyed_follows hcalls

/-! ## Steps -/

/-- The events that make `handleEvent` read. -/
def reads (revents : Revents) : Prop :=
  revents.epollin = true ∨ revents.epollpri = true ∨ revents.epollrdhup = true

instance (revents : Revents) : Decidable (reads revents) :=
  inferInstanceAs
    (Decidable (revents.epollin = true ∨ revents.epollpri = true ∨ revents.epollrdhup = true))

/-- The step neither reads nor takes anything out of the input buffer. -/
def Action.leavesInput : Action → Bool
  | .connectEstablished calls => calls.all Call.leavesInput
  | .call _ c => c.leavesInput
  | .handleEvent revents i => !decide (reads revents) && i.closeCalls.all Call.leavesInput
  | .runFunctor _ calls => calls.all Call.leavesInput
  | _ => true

/-- The first part of `handleEvent`. -/
def World.hungUp (s : World) (revents : Revents) (closeCalls : List Call) : World :=
  if revents.epollhup ∧ ¬revents.epollin then handleClose s closeCalls else s

/-- The last part of it. -/
def World.flushed (s : World) (revents : Revents) (r : WriteResult) : World :=
  if revents.epollout then handleWrite s r else s

theorem handleEvent_eq (s : World) (revents : Revents) (i : Inputs) :
    handleEvent s revents i =
      (if reads revents then handleRead (s.hungUp revents i.closeCalls) i.read i.readCalls
        else s.hungUp revents i.closeCalls).flushed revents i.write := rfl

theorem hungUp_follows {revents : Revents} {closeCalls : List Call}
    (hclose : closeCalls.all Call.leavesInput = true) : Follows s (s.hungUp revents closeCalls) := by
  unfold World.hungUp
  split
  · exact handleClose_follows hclose
  · exact Follows.refl s

theorem flushed_follows {revents : Revents} (r : WriteResult) : Follows s (s.flushed revents r) := by
  unfold World.flushed
  split
  · exact handleWrite_follows r
  · exact Follows.refl s

theorem handleEvent_follows {revents : Revents} {i : Inputs}
    (h : (Action.handleEvent revents i).leavesInput = true) : Follows s (handleEvent s revents i) := by
  simp only [Action.leavesInput, Bool.and_eq_true, Bool.not_eq_true', decide_eq_false_iff_not] at h
  obtain ⟨hnone, hclose⟩ := h
  -- without a read only the hang-up and the write are left
  rw [handleEvent_eq, if_neg hnone]
  exact (hungUp_follows hclose).trans (flushed_follows i.write)

theorem step_follows {a : Action} (ha : a.leavesInput = true) (hstep : step s a = some t) :
    Follows s t := by
  obtain ⟨-, hsteps⟩ := steps_of_step hstep
  cases hsteps with
  | connectEstablished calls hstate =>
      -- a new connection is not closed
      refine ⟨?_, fun hclosed => ?_⟩
      · exact (userCallback_follows (s := ((s.check (s.conn.state = .kConnecting)
          .connectEstablished).setState .kConnected).onChannel Channel.enableReading) _ ha).input
      · rw [World.closed, hstate] at hclosed
        rcases hclosed with h | h <;> cases h
  | call tid c => exact call_follows tid ha
  | handleEvent revents i hidle hkernel => exact handleEvent_follows ha
  | swapFunctors hidle => exact follows_of_same rfl rfl rfl
  | runFunctor r calls f fs hfs =>
      exact Follows.trans (t := { s with functors := fs }) (follows_of_same rfl rfl rfl)
        (runFunctor_follows f r ha)
  | forceCloseTimer hdelayed =>
      exact Follows.trans (t := { s with delayed := s.delayed - 1 }) (follows_of_same rfl rfl rfl)
        forceClose_follows
  | removeConnection hclosing => exact follows_of_same rfl rfl rfl

/-! ## Reads -/

/-- The connection with what a read has left in its input buffer. -/
def World.received (s : World) (r : Except Nat (List UInt8)) : World :=
  let x := s.conn.inputBuffer.readFd r
  { s with
    conn := { s.conn with inputBuffer := x.val.2 }
    faults := s.faults ++ x.faults.map .buffer }

/-- A step that reads: the bytes are behind those in the input buffer, and then the message
    callback is called, or the connection goes down, or nothing happens. -/
theorem step_reads {revents : Revents} {i : Inputs} (hreads : reads revents)
    (hclose : i.closeCalls.all Call.leavesInput = true) (hinv : s.conn.inputBuffer.Inv)
    (hstep : step s (.handleEvent revents i) = some t) :
    ∃ u, t = World.flushed u revents i.write ∧
      match i.read with
      | .ok (b :: bs) =>
        ((s.hungUp revents i.closeCalls).received (.ok (b :: bs))).conn.inputBuffer.Inv ∧
          ((s.hungUp revents i.closeCalls).received (.ok (b :: bs))).conn.inputBuffer.readable =
            s.conn.inputBuffer.readable ++ b :: bs ∧
          u = userCallback ((s.hungUp revents i.closeCalls).received (.ok (b :: bs))) .message
            i.readCalls
      | .ok [] =>
        ((s.hungUp revents i.closeCalls).received (.ok [])).conn.inputBuffer.Inv ∧
          ((s.hungUp revents i.closeCalls).received (.ok [])).conn.inputBuffer.readable =
            s.conn.inputBuffer.readable ∧
          u = handleClose ((s.hungUp revents i.closeCalls).received (.ok [])) i.readCalls
      | .error _ => Steady (s.hungUp revents i.closeCalls) u := by
  obtain ⟨-, hsteps⟩ := steps_of_step hstep
  cases hsteps with
  | handleEvent revents i hidle hkernel =>
      rw [handleEvent_eq, if_pos hreads]
      refine ⟨_, rfl, ?_⟩
      -- a hang-up before the read leaves the input buffer as it is
      have hfollows : Follows s (s.hungUp revents i.closeCalls) := hungUp_follows hclose
      have hinput := hfollows.input
      have hinv' : (s.hungUp revents i.closeCalls).conn.inputBuffer.Inv := by
        rw [hinput]
        exact hinv
      rcases hread : i.read with errno | _ | ⟨b, bs⟩
      · exact ⟨rfl, rfl, rfl⟩
      · -- the end of the stream
        obtain ⟨hyields, hn⟩ := Buffer.readFd_ok_yields hinv' []
        refine ⟨hyields.inv, ?_, ?_⟩
        · have hreadable := hyields.readable
          rw [List.append_nil] at hreadable
          rw [← hinput]
          exact hreadable
        · simp only [handleRead, hn]
          rfl
      · obtain ⟨hyields, hn⟩ := Buffer.readFd_ok_yields hinv' (b :: bs)
        refine ⟨hyields.inv, ?_, ?_⟩
        · rw [← hinput]
          exact hyields.readable
        · simp only [handleRead, hn]
          rfl

end TcpConnection
end Youth.Net
