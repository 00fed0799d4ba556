/-
  Youth.Net.TcpConnection.Incoming

  What the user finds in the input buffer.

  A read puts its bytes behind those in the buffer, and the calls of user code take bytes
  from the front, any number of them; nothing else touches the buffer.  So whatever the
  callbacks do, the buffer holds the end of what was read (`step_input`).
-/

import Mathlib.Data.List.Infix
import Youth.Net.TcpConnection.Closed

namespace Youth.Net
namespace TcpConnection

open Youth.Lib

/-- Bytes are put behind those of the buffer, and then bytes are taken from its front. -/
structure Gets (b : Buffer) (bytes : List UInt8) (b' : Buffer) : Prop where
  inv : b'.Inv
  readable : b'.readable <:+ b.readable ++ bytes

/-- Bytes are taken from the front of the buffer. -/
abbrev Takes (b b' : Buffer) : Prop := Gets b [] b'

variable {s t : World} {b b' b'' : Buffer} {bytes : List UInt8}

theorem Takes.refl (h : b.Inv) : Takes b b := ⟨h, by simp⟩

theorem Takes.readable_suffix (h : Takes b b') : b'.readable <:+ b.readable := by
  have hreadable := h.readable
  rwa [List.append_nil] at hreadable

theorem Gets.trans (h : Gets b bytes b') (h' : Takes b' b'') : Gets b bytes b'' :=
  ⟨h'.inv, (Takes.readable_suffix h').trans h.readable⟩

theorem takes_of_eq (h : b.Inv) (heq : b' = b) : Takes b b' := by
  rw [heq]
  exact Takes.refl h

theorem retrieve_takes (h : b.Inv) (len : Nat) : Takes b (b.retrieve len).val := by
  by_cases hlen : len ≤ b.readableBytes
  · have hyields := Buffer.retrieve_yields h hlen
    refine ⟨hyields.inv, ?_⟩
    rw [hyields.readable, List.append_nil]
    exact List.drop_suffix _ _
  · -- a length past the end takes everything
    have hall : (b.retrieve len).val = b.retrieveAll := by
      simp [Buffer.retrieve, show ¬len < b.readableBytes by omega]
    rw [hall]
    refine ⟨Buffer.retrieveAll_inv h, ?_⟩
    rw [Buffer.readable_retrieveAll]
    exact List.nil_suffix

/-! ## Calls and handlers -/

theorem call_takes (h : s.conn.inputBuffer.Inv) (tid : ThreadId) (c : Call) :
    Takes s.conn.inputBuffer (call tid s c).conn.inputBuffer := by
  cases c with
  | retrieve len => exact retrieve_takes h len
  | _ => exact takes_of_eq h (call_follows tid rfl).input

theorem userCallback_takes (h : s.conn.inputBuffer.Inv) (c : Callback) (calls : List Call) :
    Takes s.conn.inputBuffer (userCallback s c calls).conn.inputBuffer := by
  have hcalled : Takes s.conn.inputBuffer (s.callback c).conn.inputBuffer := Takes.refl h
  exact List.foldlRecOn (motive := fun t => Takes s.conn.inputBuffer t.conn.inputBuffer) calls
    (call loopThread) hcalled fun _ ht c _ => ht.trans (call_takes ht.inv loopThread c)

theorem handleClose_takes (h : s.conn.inputBuffer.Inv) (calls : List Call) :
    Takes s.conn.inputBuffer (handleClose s calls).conn.inputBuffer :=
  userCallback_takes (s := ((s.check (s.conn.state = .kConnected ∨ s.conn.state = .kDisconnecting)
    .handleClose).setState .kDisconnected).onChannel Channel.disableAll) h _ calls

theorem connectDestroyed_takes (h : s.conn.inputBuffer.Inv) (calls : List Call) :
    Takes s.conn.inputBuffer (connectDestroyed s calls).conn.inputBuffer := by
  unfold connectDestroyed
  dsimp only
  split
  · exact userCallback_takes (s := (s.setState .kDisconnected).onChannel Channel.disableAll) h _ calls
  · exact Takes.refl h

theorem runFunctor_takes (h : s.conn.inputBuffer.Inv) (f : Functor) (r : WriteResult)
    (calls : List Call) : Takes s.conn.inputBuffer (runFunctor s f r calls).conn.inputBuffer := by
  cases f with
  | sendInLoop tid message => exact takes_of_eq h (sendMessage_steady tid message r).input
  | shutdownInLoop => exact takes_of_eq h shutdownInLoop_follows.input
  | forceCloseInLoop =>
      simp only [runFunctor, forceCloseInLoop]
      split
      · exact handleClose_takes h calls
      · exact Takes.refl h
  | startReadInLoop => exact takes_of_eq h startReadInLoop_follows.input
  | stopReadInLoop => exact Takes.refl h
  | writeCompleteCallback => exact userCallback_takes h _ calls
  | highWaterMarkCallback size => exact userCallback_takes h _ calls
  | connectDestroyed => exact connectDestroyed_takes h calls

/-! ## Gets -/

/-- What `::readv` returns to a step, if it reads. -/
def Action.read? : Action → Option (Except Nat (List UInt8))
  | .handleEvent revents i => if reads revents then some i.read else none
  | _ => none

/-- The bytes in the result of a read. -/
def bytesOf : Option (Except Nat (List UInt8)) → List UInt8
  | some (.ok bytes) => bytes
  | _ => []

theorem handleRead_reads (h : s.conn.inputBuffer.Inv) (r : Except Nat (List UInt8))
    (calls : List Call) :
    Gets s.conn.inputBuffer (bytesOf (some r)) (handleRead s r calls).conn.inputBuffer := by
  cases r with
  | error errno => exact Takes.refl h
  | ok bytes =>
      obtain ⟨hyields, hn⟩ := Buffer.readFd_ok_yields h bytes
      have hread : Gets s.conn.inputBuffer bytes (s.conn.inputBuffer.readFd (.ok bytes)).val.2 := by
        refine ⟨hyields.inv, ?_⟩
        have hreadable := hyields.readable
        change (s.conn.inputBuffer.readFd (.ok bytes)).val.2.readable = _ at hreadable
        rw [hreadable]
      unfold handleRead
      dsimp only
      rw [hn]
      cases bytes with
      | nil => exact hread.trans (handleClose_takes (s := s.received (.ok [])) hread.inv calls)
      | cons b bytes =>
          exact hread.trans (userCallback_takes (s := s.received (.ok (b :: bytes))) hread.inv _ calls)

theorem handleEvent_reads (h : s.conn.inputBuffer.Inv) (revents : Revents) (i : Inputs) :
    Gets s.conn.inputBuffer (bytesOf (Action.handleEvent revents i).read?)
      (handleEvent s revents i).conn.inputBuffer := by
  have hclosed : Takes s.conn.inputBuffer (s.hungUp revents i.closeCalls).conn.inputBuffer := by
    unfold World.hungUp
    split
    · exact handleClose_takes h _
    · exact Takes.refl h
  have hflushed (u : World) : (u.flushed revents i.write).conn.inputBuffer = u.conn.inputBuffer :=
    (flushed_follows i.write).input
  have hresult : (Action.handleEvent revents i).read? =
      if reads revents then some i.read else none := rfl
  rw [handleEvent_eq, hflushed, hresult]
  by_cases hreads : reads revents
  · rw [if_pos hreads, if_pos hreads]
    have hread := handleRead_reads hclosed.inv i.read i.readCalls
    refine ⟨hread.inv, hread.readable.trans ?_⟩
    obtain ⟨front, hfront⟩ := hclosed.readable_suffix
    rw [← hfront, List.append_assoc]
    exact List.suffix_append _ _
  · rw [if_neg hreads, if_neg hreads]
    exact hclosed

theorem step_input {a : Action} (h : s.conn.inputBuffer.Inv) (hstep : step s a = some t) :
    Gets s.conn.inputBuffer (bytesOf a.read?) t.conn.inputBuffer := by
  obtain ⟨-, hsteps⟩ := steps_of_step hstep
  cases hsteps with
  | connectEstablished calls hstate => exact userCallback_takes (s := ((s.check (s.conn.state =
      .kConnecting) .connectEstablished).setState .kConnected).onChannel Channel.enableReading) h _ calls
  | call tid c => exact call_takes h tid c
  | handleEvent revents i hidle hkernel => exact handleEvent_reads h revents i
  | swapFunctors hidle => exact Takes.refl h
  | runFunctor r calls f fs hfs => exact runFunctor_takes (s := { s with functors := fs }) h f r calls
  | forceCloseTimer hdelayed =>
      exact takes_of_eq h (forceClose_follows (s := { s with delayed := s.delayed - 1 })).input
  | removeConnection hclosing => exact Takes.refl h

end TcpConnection
end Youth.Net
