/-
  Youth.Net.TcpConnection.Sends

  What kind of messages a connection sends.

  Nothing but the calls of user code makes a message.  So when each call that sends has a
  message of some kind, every message sent is of that kind, and with it every message that
  waits or was handled (`Stream.sent_of_handled`).
-/

import Youth.Net.TcpConnection.OutputStream

namespace Youth.Net
namespace TcpConnection

/-- The call sends nothing but what satisfies `P`. -/
def Call.Sends (P : List UInt8 → Prop) : Call → Prop
  | .send message _ => P message
  | .sendBuffer buf _ => P buf.readable
  | _ => True

def Action.Sends (P : List UInt8 → Prop) : Action → Prop
  | .connectEstablished calls => ∀ c ∈ calls, c.Sends P
  | .call _ c => c.Sends P
  | .handleEvent _ i => (∀ c ∈ i.closeCalls, c.Sends P) ∧ ∀ c ∈ i.readCalls, c.Sends P
  | .runFunctor _ calls => ∀ c ∈ calls, c.Sends P
  | _ => True

/-- Every message sent satisfies `P`. -/
def AllSent (P : List UInt8 → Prop) (s : World) : Prop := ∀ p ∈ s.sent, P p.2

variable {P : List UInt8 → Prop} {s t : World}

theorem AllSent.of_eq (h : AllSent P s) (heq : t.sent = s.sent) : AllSent P t := by
  intro p hp
  rw [heq] at hp
  exact h p hp

/-- What was handled has been sent. -/
theorem Stream.sent_of_handled (hs : Stream s) {p : ThreadId × List UInt8} (hp : p ∈ s.handled) :
    p ∈ s.sent := by
  have hmem : p ∈ (s.handled ++ s.queuedSends).filter (·.1 = p.1) := by
    apply List.mem_filter.mpr
    exact ⟨List.mem_append_left _ hp, decide_eq_true rfl⟩
  rw [hs.order p.1] at hmem
  exact (List.mem_filter.mp hmem).1

/-! ## Calls and handlers -/

theorem sendInLoop_sent (data : List UInt8) (r : WriteResult) :
    (sendInLoop s data r).sent = s.sent := by
  have hdirect : (writeDirectly s data r).1.sent = s.sent := by
    unfold writeDirectly
    split
    · cases r with
      | ok n =>
          dsimp only
          split <;> rfl
      | error errno => rfl
    · rfl
  have happend (u : World) (rest : List UInt8) : (appendOutput u rest).sent = u.sent := by
    unfold appendOutput
    dsimp only
    split <;> split <;> rfl
  unfold sendInLoop
  split
  · rfl
  · dsimp only
    split
    · rw [happend, hdirect]
    · exact hdirect

theorem send_allSent (h : AllSent P s) (tid : ThreadId) {message : List UInt8}
    (hmessage : P message) (r : WriteResult) : AllSent P (send s tid message r) := by
  unfold send
  split
  · have hsent : AllSent P { s with sent := s.sent ++ [(tid, message)] } := by
      intro p hp
      rcases List.mem_append.mp hp with hold | hnew
      · exact h p hold
      · rw [List.mem_singleton.mp hnew]
        exact hmessage
    dsimp only
    split
    · exact hsent.of_eq (sendInLoop_sent message r)
    · exact hsent
  · exact h

theorem call_allSent (h : AllSent P s) (tid : ThreadId) {c : Call} (hc : c.Sends P) :
    AllSent P (call tid s c) := by
  cases c with
  | send message r => exact send_allSent h tid hc r
  | sendBuffer buf r =>
      simp only [call, sendBuffer]
      split
      · exact send_allSent h tid hc r
      · exact h
  | shutdown => exact h.of_eq (shutdown_same tid).sent
  | forceClose => exact h.of_eq forceClose_same.sent
  | forceCloseWithDelay => exact h.of_eq forceCloseWithDelay_same.sent
  | startRead => exact h.of_eq (startRead_same tid).sent
  | stopRead => exact h.of_eq (stopRead_same tid).sent
  | retrieve len => exact h

variable {calls : List Call}

theorem userCallback_allSent (hcalls : ∀ c ∈ calls, c.Sends P) (h : AllSent P s) (cb : Callback) :
    AllSent P (userCallback s cb calls) := by
  have hcalled : AllSent P (s.callback cb) := h
  exact List.foldlRecOn (motive := AllSent P) calls (call loopThread) hcalled
    fun _ ht c hc => call_allSent ht loopThread (hcalls c hc)

theorem handleClose_allSent (hcalls : ∀ c ∈ calls, c.Sends P) (h : AllSent P s) :
    AllSent P (handleClose s calls) :=
  userCallback_allSent (s := ((s.check (s.conn.state = .kConnected ∨ s.conn.state = .kDisconnecting)
    .handleClose).setState .kDisconnected).onChannel Channel.disableAll) hcalls h _

theorem handleRead_allSent (hcalls : ∀ c ∈ calls, c.Sends P) (h : AllSent P s)
    (r : Except Nat (List UInt8)) : AllSent P (handleRead s r calls) := by
  unfold handleRead
  dsimp only
  split
  · apply userCallback_allSent hcalls
    exact h
  · apply handleClose_allSent hcalls
    exact h
  · exact h

theorem handleWrite_sent (r : WriteResult) : (handleWrite s r).sent = s.sent := by
  have hshutdown (u : World) : (shutdownInLoop u).sent = u.sent := shutdownInLoop_same.sent
  have hdrained (u : World) : (outputDrained u).sent = u.sent := by
    unfold outputDrained
    dsimp only
    split <;> split <;> first | exact hshutdown _ | rfl
  have hdrain : (drainOutput s r).sent = s.sent := by
    cases r <;> rfl
  unfold handleWrite
  split
  · dsimp only
    split
    · exact hdrain
    · rw [hdrained, hdrain]
  · rfl

theorem connectDestroyed_allSent (hcalls : ∀ c ∈ calls, c.Sends P) (h : AllSent P s) :
    AllSent P (connectDestroyed s calls) := by
  unfold connectDestroyed
  dsimp only
  split
  · exact userCallback_allSent (s := (s.setState .kDisconnected).onChannel Channel.disableAll)
      hcalls h _
  · exact h

theorem runFunctor_allSent (hcalls : ∀ c ∈ calls, c.Sends P) (h : AllSent P s) (f : Functor)
    (r : WriteResult) : AllSent P (runFunctor s f r calls) := by
  cases f with
  | sendInLoop tid message => exact h.of_eq (sendInLoop_sent message r)
  | shutdownInLoop => exact h.of_eq shutdownInLoop_same.sent
  | forceCloseInLoop =>
      simp only [runFunctor, forceCloseInLoop]
      split
      · exact handleClose_allSent hcalls h
      · exact h
  | startReadInLoop => exact h.of_eq startReadInLoop_same.sent
  | stopReadInLoop => exact h
  | writeCompleteCallback => exact userCallback_allSent hcalls h _
  | highWaterMarkCallback size => exact userCallback_allSent hcalls h _
  | connectDestroyed => exact connectDestroyed_allSent hcalls h

theorem step_allSent {a : Action} (ha : a.Sends P) (h : AllSent P s) (hstep : step s a = some t) :
    AllSent P t := by
  obtain ⟨-, hsteps⟩ := steps_of_step hstep
  cases hsteps with
  | connectEstablished calls hstate =>
      exact userCallback_allSent (s := ((s.check (s.conn.state = .kConnecting)
        .connectEstablished).setState .kConnected).onChannel Channel.enableReading) ha h _
  | call tid c => exact call_allSent h tid ha
  | handleEvent revents i hidle hkernel =>
      apply handleEvent_keeps (P := AllSent P) _ _ _ h
      · exact fun s hs => handleClose_allSent ha.1 hs
      · exact fun s hs => handleRead_allSent ha.2 hs _
      · exact fun s hs => hs.of_eq (handleWrite_sent _)
  | swapFunctors hidle => exact h
  | runFunctor r calls f fs hfs =>
      exact runFunctor_allSent (s := { s with functors := fs }) ha h f r
  | forceCloseTimer hdelayed =>
      exact h.of_eq (forceClose_same (s := { s with delayed := s.delayed - 1 })).sent
  | removeConnection hclosing => exact h

end TcpConnection
end Youth.Net
