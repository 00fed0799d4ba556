/-
  Youth.Net.TcpConnection.FailedWrite

  What `handleWrite` does when `::write` returns -1.

  The result is logged and then used all the same: `retrieve(n)` takes a `size_t`, so
  -1 is more than the buffer can hold and its last branch, `retrieveAll`, empties it.
  From there `handleWrite` goes on as after a complete write: the write interest is
  dropped, the write-complete callback queued, and a connection that is closing is
  shut down, behind bytes that were never written.
-/

import Youth.Net.TcpConnection.Graceful

namespace Youth.Net

namespace Buffer

/-- A length past the buffer's end takes everything. -/
theorem retrieve_val_of_le {b : Buffer} {len : Nat} (h : b.readableBytes ≤ len) :
    (b.retrieve len).val = b.retrieveAll := by
  simp [retrieve, Nat.not_lt.mpr h]

/-- No positive `retrieve` leaves a non-empty buffer as it was. -/
theorem retrieve_readable_ne {b : Buffer} (h : b.Inv) (hne : b.readable ≠ []) {len : Nat}
    (hlen : 0 < len) : (b.retrieve len).val.readable ≠ b.readable := by
  by_cases hle : len ≤ b.readableBytes
  · rw [(retrieve_yields h hle).readable]
    intro heq
    have hlength := congrArg List.length heq
    rw [List.length_drop] at hlength
    have hpos := List.length_pos_iff.mpr hne
    omega
  · rw [retrieve_val_of_le (by omega), readable_retrieveAll]
    exact hne.symm

end Buffer

namespace TcpConnection

open Youth.Lib

variable {s : World}

/-- What a failed write should leave behind: the bytes, the interest in writing them, no
    news of a completed write, no half-close; the next write goes on at the same byte. -/
structure KeepsOutput (s t : World) : Prop where
  bytes : t.conn.outputBuffer.readable = s.conn.outputBuffer.readable
  interest : t.conn.channel.isWriting = true
  callbacks : t.pendingFunctors = s.pendingFunctors
  shutWr : t.shutWr = s.shutWr
  resumes : ∀ n, (handleWrite t (.ok n)).written =
    s.written ++ s.conn.outputBuffer.readable.take n

/-- The end of `handleWrite`, field by field. -/
theorem outputDrained_effect (s : World) :
    (outputDrained s).conn.outputBuffer = s.conn.outputBuffer ∧
      (outputDrained s).conn.channel.isWriting = false ∧
      (outputDrained s).pendingFunctors = s.pendingFunctors ++
        (if s.conn.writeCompleteCallback then [.writeCompleteCallback] else []) ∧
      (outputDrained s).shutWr = s.shutWr ++
        (if s.conn.state = .kDisconnecting then [s.written.length] else []) ∧
      (outputDrained s).written = s.written := by
  have hoff : (s.onChannel Channel.disableWriting).conn.channel.isWriting = false := by
    simp only [World.onChannel, Channel.isWriting, Channel.disableWriting, Channel.setEvents_events]
  -- neither the queue nor the half-close looks at what the other did
  obtain ⟨u, hu, hbuf, hwriting, hqueue, hshut, hwritten, hstate⟩ : ∃ u : World,
      (if (s.onChannel Channel.disableWriting).conn.writeCompleteCallback then
        (s.onChannel Channel.disableWriting).queueInLoop .writeCompleteCallback
        else s.onChannel Channel.disableWriting) = u ∧
      u.conn.outputBuffer = s.conn.outputBuffer ∧ u.conn.channel.isWriting = false ∧
      u.pendingFunctors = s.pendingFunctors ++
        (if s.conn.writeCompleteCallback then [.writeCompleteCallback] else []) ∧
      u.shutWr = s.shutWr ∧ u.written = s.written ∧ u.conn.state = s.conn.state := by
    by_cases hwc : s.conn.writeCompleteCallback = true
    · rw [if_pos (show (s.onChannel Channel.disableWriting).conn.writeCompleteCallback = true from hwc)]
      exact ⟨_, rfl, rfl, hoff, by rw [if_pos hwc]; rfl, rfl, rfl, rfl⟩
    · rw [if_neg (show ¬(s.onChannel Channel.disableWriting).conn.writeCompleteCallback = true from hwc)]
      exact ⟨_, rfl, rfl, hoff, by rw [if_neg hwc, List.append_nil]; rfl, rfl, rfl, rfl⟩
  simp only [outputDrained, hu, hstate]
  split
  · rw [shutdownInLoop, if_neg (by rw [hwriting]; exact Bool.false_ne_true)]
    exact ⟨hbuf, hwriting, hqueue, by rw [hshut, hwritten], hwritten⟩
  · exact ⟨hbuf, hwriting, hqueue, by rw [hshut, List.append_nil], hwritten⟩

/-- The whole effect of a failed write on a buffer that fits in memory. -/
theorem handleWrite_error (hwriting : s.conn.channel.isWriting = true)
    (hsize : s.conn.outputBuffer.readableBytes < 2 ^ 64) (errno : Errno) :
    (handleWrite s (.error errno)).conn.outputBuffer.readable = [] ∧
      (handleWrite s (.error errno)).conn.channel.isWriting = false ∧
      (handleWrite s (.error errno)).pendingFunctors = s.pendingFunctors ++
        (if s.conn.writeCompleteCallback then [.writeCompleteCallback] else []) ∧
      (handleWrite s (.error errno)).shutWr = s.shutWr ++
        (if s.conn.state = .kDisconnecting then [s.written.length] else []) ∧
      (handleWrite s (.error errno)).written = s.written := by
  -- -1 as a length is 2^64 - 1
  have hall : (s.conn.outputBuffer.retrieve (sizeOfInt (-1))).val = s.conn.outputBuffer.retrieveAll := by
    apply Buffer.retrieve_val_of_le
    show s.conn.outputBuffer.readableBytes ≤ 18446744073709551615
    omega
  have hout : (drainOutput s (.error errno)).conn.outputBuffer = s.conn.outputBuffer.retrieveAll := hall
  have hempty : (drainOutput s (.error errno)).conn.outputBuffer.readableBytes = 0 := by
    rw [hout]
    exact Nat.sub_self _
  have hwrite : handleWrite s (.error errno) = outputDrained (drainOutput s (.error errno)) := by
    simp [handleWrite, hwriting, hempty]
  obtain ⟨hbuf, hoff, hqueue, hshut, hwritten⟩ := outputDrained_effect (drainOutput s (.error errno))
  rw [hwrite]
  refine ⟨?_, hoff, hqueue, hshut, hwritten⟩
  rw [hbuf, hout]
  exact Buffer.readable_retrieveAll _

/-- **A failed write loses the output.**  In every state in which `handleWrite` writes and
    something is pending, whatever the `errno`. -/
theorem failed_write_loses_output (s : World) (hbuffer : s.conn.outputBuffer.Inv)
    (hpending : s.conn.outputBuffer.readable ≠ []) (hwriting : s.conn.channel.isWriting = true)
    (errno : Errno) : ¬KeepsOutput s (handleWrite s (.error errno)) := by
  intro hkeeps
  have hdrained : (drainOutput s (.error errno)).conn.outputBuffer.readable ≠
      s.conn.outputBuffer.readable :=
    Buffer.retrieve_readable_ne hbuffer hpending (by decide)
  -- whether or not anything is left, `handleWrite` keeps what `retrieve` made of the buffer
  have hsame : (handleWrite s (.error errno)).conn.outputBuffer =
      (drainOutput s (.error errno)).conn.outputBuffer := by
    by_cases hleft : (drainOutput s (.error errno)).conn.outputBuffer.readableBytes = 0
    · have hwrite : handleWrite s (.error errno) = outputDrained (drainOutput s (.error errno)) := by
        simp [handleWrite, hwriting, hleft]
      rw [hwrite]
      exact (outputDrained_effect _).1
    · have hwrite : handleWrite s (.error errno) = drainOutput s (.error errno) := by
        simp [handleWrite, hwriting, hleft]
      rw [hwrite]
  apply hdrained
  rw [← hsame]
  exact hkeeps.bytes

/-- Three bytes are sent and one is written; the connection is closing when the second
    write would block. -/
def blockedActions : List Action :=
  [.connectEstablished [], .call loopThread (.send [1, 2, 3] (.ok 1)), .call loopThread .shutdown]

theorem failed_write_loses_output_blocked :
    ∃ s, run step (newConnection 1 3 Epoll.empty true false 64) blockedActions = some s ∧
      s.conn.outputBuffer.readable = [2, 3] ∧ s.conn.channel.isWriting = true ∧
      ¬KeepsOutput s (handleWrite s (.error .EWOULDBLOCK)) := by
  have hsome : ((run step (newConnection 1 3 Epoll.empty true false 64) blockedActions).map
      fun s => (s.conn.outputBuffer.readable, s.conn.channel.isWriting)) = some ([2, 3], true) := by
    decide +kernel
  obtain ⟨s, hrun, hs⟩ := Option.map_eq_some_iff.mp hsome
  obtain ⟨hbytes, hwriting⟩ := Prod.mk.inj hs
  have hsurvives : ∀ a ∈ blockedActions, a.Survives := by
    simp [blockedActions, Action.Survives, Call.Survives, WriteResult.Survives]
  have hstream : Stream s := run_invariant_of (fun _ _ _ ha hs hstep => step_stream hs ha hstep)
    hsurvives (newConnection_stream 1 3 Epoll.empty true false 64) hrun
  have hpending : s.conn.outputBuffer.readable ≠ [] := by
    rw [hbytes]
    exact List.cons_ne_nil _ _
  exact ⟨s, hrun, hbytes, hwriting,
    failed_write_loses_output s hstream.buffer hpending hwriting .EWOULDBLOCK⟩

/-- There the writable event empties the buffer and shuts the connection down behind its
    first byte. -/
theorem blocked_write_shuts_down :
    ∃ s, run step (newConnection 1 3 Epoll.empty true false 64) blockedActions = some s ∧
      s.conn.outputBuffer.readable = [2, 3] ∧ s.conn.channel.isWriting = true ∧
      (handleWrite s (.error .EWOULDBLOCK)).conn.outputBuffer.readable = [] ∧
      (handleWrite s (.error .EWOULDBLOCK)).shutWr = [1] ∧
      ¬KeepsOutput s (handleWrite s (.error .EWOULDBLOCK)) := by
  have hsome : ((run step (newConnection 1 3 Epoll.empty true false 64) blockedActions).map fun s =>
      (s.conn.outputBuffer.readable, s.conn.channel.isWriting,
        (handleWrite s (.error .EWOULDBLOCK)).conn.outputBuffer.readable,
        (handleWrite s (.error .EWOULDBLOCK)).shutWr)) = some ([2, 3], true, [], [1]) := by
    decide +kernel
  obtain ⟨s, hrun, hs⟩ := Option.map_eq_some_iff.mp hsome
  simp only [Prod.mk.injEq] at hs
  obtain ⟨hbytes, hwriting, hempty, hshut⟩ := hs
  refine ⟨s, hrun, hbytes, hwriting, hempty, hshut, ?_⟩
  intro hkeeps
  have hkept := hkeeps.bytes
  rw [hempty, hbytes] at hkept
  cases hkept

end TcpConnection
end Youth.Net
