/-
  Youth.Net.TcpConnection.Pipe

  A connection that is used from its loop thread only, as a pipe.

  The pipe has the bytes that are out, the bytes that wait, the number of write-complete
  callbacks that are due, and where it was shut.  `Carries s p` says that the connection
  `s` is in the state `p` of the pipe; sending, shutting down and the writable event act
  on both alike.  In the pipe a direct write, a short write and a refused one differ only
  in what is left to wait.
-/

import Youth.Net.TcpConnection.OutputStream

namespace Youth.Net
namespace TcpConnection

open Youth.Lib

structure Pipe where
  /-- `kConnected`, as against `kDisconnecting`. -/
  isOpen : Bool
  written : List UInt8
  pending : List UInt8
  /-- The write-complete callbacks in the queue. -/
  due : Nat
  /-- For each `SHUT_WR`, how many bytes were out. -/
  shut : List Nat
  deriving DecidableEq, Repr

namespace Pipe

/-- An open pipe before the first byte. -/
def new : Pipe := ⟨true, [], [], 0, []⟩

def send (p : Pipe) (data : List UInt8) (r : WriteResult) : Pipe :=
  if p.isOpen then
    if p.pending = [] then
      match r with
      | .ok n =>
        if data.length ≤ n then { p with written := p.written ++ data, due := p.due + 1 }
        else { p with written := p.written ++ data.take n, pending := data.drop n }
      | .error _ => { p with pending := data }
    else { p with pending := p.pending ++ data }
  else p

def shutdown (p : Pipe) : Pipe :=
  if p.isOpen then
    { p with
      isOpen := false
      shut := if p.pending = [] then p.shut ++ [p.written.length] else p.shut }
  else p

/-- The writable event, with `n` bytes taken by the socket. -/
def drain (p : Pipe) (n : Nat) : Pipe :=
  if p.pending.length ≤ n then
    { p with
      written := p.written ++ p.pending
      pending := []
      due := p.due + 1
      shut := if p.isOpen then p.shut else p.shut ++ [p.written.length + p.pending.length] }
  else { p with written := p.written ++ p.pending.take n, pending := p.pending.drop n }

end Pipe

/-- The connection as a pipe: with a write-complete callback, without a high-water mark, and
    registered for reading. -/
structure Carries (s : World) (p : Pipe) : Prop where
  state : s.conn.state = if p.isOpen then .kConnected else .kDisconnecting
  buffer : s.conn.outputBuffer.Inv
  pending : s.conn.outputBuffer.readable = p.pending
  writing : s.conn.channel.isWriting = true ↔ p.pending ≠ []
  written : s.written = p.written
  shut : s.shutWr = p.shut
  queue : s.functors ++ s.pendingFunctors = List.replicate p.due .writeCompleteCallback
  callback : s.conn.writeCompleteCallback = true
  noMark : s.conn.highWaterMarkCallback = false
  registered : s.epoll.Registered s.conn.channel
  added : s.conn.channel.index = .kAdded
  reading : s.conn.channel.events.read = true
  live : s.epoll.fatal = false ∧ s.overflow = false

variable {s : World} {p : Pipe}

/-- The kernel watches the descriptor. -/
theorem Carries.kernel (h : Carries s p) : (s.epoll.kernel s.conn.channel.fd).isSome = true := by
  have hreg := h.registered
  simp only [Epoll.Registered, h.added] at hreg
  simp [hreg.2]

theorem Carries.readableBytes_eq_zero (h : Carries s p) :
    s.conn.outputBuffer.readableBytes = 0 ↔ p.pending = [] := by
  rw [← Buffer.readable_eq_nil_iff h.buffer, h.pending]

theorem Carries.not_writing (h : Carries s p) (hnil : p.pending = []) :
    s.conn.channel.isWriting = false := by
  rw [← Bool.not_eq_true, h.writing]
  exact fun hne => hne hnil

/-- What the interest in writing leaves alone. -/
theorem onChannel_write (hreg : s.epoll.Registered s.conn.channel)
    (hreading : s.conn.channel.events.read = true) (write : Bool) :
    let t := s.onChannel (Channel.setEvents fun ch => { ch.events with write := write })
    t.epoll.Registered t.conn.channel ∧ t.conn.channel.index = .kAdded ∧
      t.conn.channel.events.read = true ∧ t.conn.channel.isWriting = write ∧
      t.epoll.fatal = s.epoll.fatal := by
  have hset := Channel.setEvents_registered hreg fun ch => { ch.events with write := write }
  refine ⟨hset.1, Channel.updateChannel_index ?_, ?_, ?_, hset.2⟩
  · simp [Channel.isNoneEvent, kNoneEvent, hreading]
  · show (Channel.setEvents _ s.conn.channel s.epoll).val.1.events.read = true
    rw [Channel.setEvents_events]
    exact hreading
  · show (Channel.setEvents _ s.conn.channel s.epoll).val.1.events.write = write
    rw [Channel.setEvents_events]

/-- The rest of a message waits, and the channel asks for writability. -/
theorem appendOutput_carries (h : Carries s p) {rest : List UInt8} (hne : rest ≠ []) :
    Carries (appendOutput s rest) { p with pending := p.pending ++ rest } := by
  have happ := Buffer.append_yields h.buffer rest
  have hmore : p.pending ++ rest ≠ [] := by simp [hne]
  unfold appendOutput
  simp only [h.noMark, and_false, Bool.false_eq_true, if_false]
  split
  next hwriting =>
    exact { h with
      buffer := happ.inv
      pending := happ.readable.trans (by rw [h.pending])
      writing := iff_of_true hwriting hmore }
  next =>
    obtain ⟨hreg, hadded, hreading, hwriting, hlive⟩ := onChannel_write h.registered h.reading true
    exact { h with
      buffer := happ.inv
      pending := happ.readable.trans (by rw [h.pending])
      writing := iff_of_true hwriting hmore
      registered := hreg
      added := hadded
      reading := hreading
      live := ⟨hlive.trans h.live.1, h.live.2⟩ }

/-- A callback more is due. -/
theorem queueInLoop_carries (h : Carries s p) :
    Carries (s.queueInLoop .writeCompleteCallback) { p with due := p.due + 1 } := by
  refine { h with queue := ?_ }
  show s.functors ++ (s.pendingFunctors ++ [.writeCompleteCallback]) = _
  rw [← List.append_assoc, h.queue, List.replicate_succ']

/-- What a direct write leaves goes to the buffer, if it is anything. -/
theorem appendRest_carries (h : Carries s p) (rest : List UInt8) :
    Carries (if 0 < rest.length then appendOutput s rest else s)
      { p with pending := p.pending ++ rest } := by
  split
  next hpos => exact appendOutput_carries h (List.length_pos_iff.mp hpos)
  next hzero =>
    have hnil : rest = [] := List.length_eq_zero_iff.mp (Nat.eq_zero_of_not_pos hzero)
    rw [hnil, List.append_nil]
    exact h

theorem sendInLoop_eq {t : World} {data : List UInt8} {r : WriteResult} {k : Nat}
    (halive : s.conn.state ≠ .kDisconnected) (h : writeDirectly s data r = (t, k, false)) :
    sendInLoop s data r = if 0 < (data.drop k).length then appendOutput t (data.drop k) else t := by
  simp [sendInLoop, halive, h]

/-- Nothing waits, and the socket takes `n` bytes at most. -/
theorem writeDirectly_ok (h : Carries s p) (hnil : p.pending = []) (data : List UInt8) (n : Nat) :
    ∃ t, writeDirectly s data (.ok n) = (t, min n data.length, false) ∧
      Carries t { p with
        written := p.written ++ data.take n
        due := if data.length ≤ n then p.due + 1 else p.due } := by
  have hwriting := h.not_writing hnil
  have hzero := h.readableBytes_eq_zero.mpr hnil
  have htake : data.take (min n data.length) = data.take n := by
    rw [← List.take_take, List.take_length]
  have hwritten : Carries { s with written := s.written ++ data.take (min n data.length) }
      { p with written := p.written ++ data.take n } :=
    { h with written := by rw [h.written, htake] }
  simp only [writeDirectly, hwriting, hzero, Bool.false_eq_true, not_false_eq_true, and_self,
    if_true, h.callback, and_true]
  by_cases hall : data.length ≤ n
  · rw [if_pos (by omega), if_pos hall]
    exact ⟨_, rfl, queueInLoop_carries hwritten⟩
  · rw [if_neg (by omega), if_neg hall]
    exact ⟨_, rfl, hwritten⟩

theorem writeDirectly_error {errno : Errno} (hr : (WriteResult.error errno).Survives)
    (data : List UInt8) : writeDirectly s data (.error errno) = (s, 0, false) := by
  simp [writeDirectly, not_fault hr]

theorem sendInLoop_carries (h : Carries s p) (hopen : p.isOpen = true) (data : List UInt8)
    {r : WriteResult} (hr : r.Survives) : Carries (sendInLoop s data r) (p.send data r) := by
  have hstate : s.conn.state = .kConnected := h.state.trans (if_pos hopen)
  have halive : s.conn.state ≠ .kDisconnected := by
    rw [hstate]
    decide
  unfold Pipe.send
  rw [if_pos hopen]
  by_cases hnil : p.pending = []
  · rw [if_pos hnil]
    cases r with
    | ok n =>
        obtain ⟨t, hattempt, ht⟩ := writeDirectly_ok h hnil data n
        have happ := appendRest_carries ht (data.drop (min n data.length))
        rw [← sendInLoop_eq halive hattempt] at happ
        dsimp only at happ ⊢
        by_cases hall : data.length ≤ n
        · rw [if_pos hall]
          rw [if_pos hall, Nat.min_eq_right hall, List.drop_length, List.take_of_length_le hall,
            List.append_nil] at happ
          exact happ
        · have hlt : n ≤ data.length := Nat.le_of_not_le hall
          rw [if_neg hall]
          rw [if_neg hall, Nat.min_eq_left hlt, hnil, List.nil_append] at happ
          exact happ
    | error errno =>
        have happ := appendRest_carries h (data.drop 0)
        rw [← sendInLoop_eq halive (writeDirectly_error hr data), hnil] at happ
        exact happ
  · -- behind what waits already
    have hwriting : s.conn.channel.isWriting = true := h.writing.mpr hnil
    have hattempt : writeDirectly s data r = (s, 0, false) := by simp [writeDirectly, hwriting]
    have happ := appendRest_carries h (data.drop 0)
    rw [← sendInLoop_eq halive hattempt] at happ
    rw [if_neg hnil]
    exact happ

theorem send_carries (h : Carries s p) (data : List UInt8) {r : WriteResult} (hr : r.Survives) :
    Carries (send s loopThread data r) (p.send data r) := by
  unfold send
  cases hopen : p.isOpen with
  | true =>
      have hstate : s.conn.state = .kConnected := h.state.trans (if_pos hopen)
      rw [if_pos hstate]
      have hsent : Carries { s with sent := s.sent ++ [(loopThread, data)] } p := { h with }
      have hsend := sendInLoop_carries hsent hopen data hr
      exact { hsend with }
  | false =>
      have hstate : s.conn.state = .kDisconnecting := by
        rw [h.state, hopen]
        rfl
      have hsend : p.send data r = p := by simp [Pipe.send, hopen]
      rw [hsend, if_neg (by rw [hstate]; decide)]
      exact h

/-- `SHUT_WR` comes once nothing waits. -/
theorem shutdownInLoop_carries (h : Carries s p) : Carries (shutdownInLoop s)
    { p with shut := if p.pending = [] then p.shut ++ [p.written.length] else p.shut } := by
  unfold shutdownInLoop
  by_cases hnil : p.pending = []
  · rw [h.not_writing hnil, if_pos hnil]
    exact { h with shut := by rw [← h.shut, ← h.written]; rfl }
  · rw [h.writing.mpr hnil, if_neg hnil]
    exact h

theorem shutdown_carries (h : Carries s p) : Carries (shutdown s loopThread) p.shutdown := by
  unfold shutdown Pipe.shutdown
  cases hopen : p.isOpen with
  | true =>
      have hstate : s.conn.state = .kConnected := h.state.trans (if_pos hopen)
      have hclosing : Carries (s.setState .kDisconnecting) { p with isOpen := false } :=
        { h with state := rfl }
      rw [if_pos hstate]
      exact shutdownInLoop_carries hclosing
  | false =>
      have hstate : s.conn.state = .kDisconnecting := by
        rw [h.state, hopen]
        rfl
      rw [if_neg (by rw [hstate]; decide)]
      exact h

/-- `drainOutput` on the buffer and on the socket. -/
theorem drainOutput_yields (h : Carries s p) (n : Nat) :
    (drainOutput s (.ok n)).conn.outputBuffer.Inv ∧
      (drainOutput s (.ok n)).conn.outputBuffer.readable = p.pending.drop n ∧
      (drainOutput s (.ok n)).written = p.written ++ p.pending.take n := by
  have hlen := Buffer.length_readable h.buffer
  have hle : min n s.conn.outputBuffer.readable.length ≤ s.conn.outputBuffer.readableBytes := by
    omega
  have hy := Buffer.retrieve_yields h.buffer hle
  refine ⟨hy.inv, hy.readable.trans ?_, ?_⟩
  · rw [h.pending]
    by_cases hall : p.pending.length ≤ n
    · rw [Nat.min_eq_right hall, List.drop_length, List.drop_of_length_le hall]
    · rw [Nat.min_eq_left (Nat.le_of_not_le hall)]
  · show s.written ++ s.conn.outputBuffer.readable.take n = _
    rw [h.written, h.pending]

/-- All is out, and the interest in writing goes. -/
theorem drained_carries (h : Carries s p) {n : Nat} (hall : p.pending.length ≤ n) :
    Carries ((drainOutput s (.ok n)).onChannel Channel.disableWriting)
      { p with written := p.written ++ p.pending, pending := [] } := by
  obtain ⟨hbuf, hreadable, hwritten⟩ := drainOutput_yields h n
  rw [List.drop_of_length_le hall] at hreadable
  rw [List.take_of_length_le hall] at hwritten
  obtain ⟨hreg, hadded, hreading, hoff, hlive⟩ :=
    onChannel_write (s := drainOutput s (.ok n)) h.registered h.reading false
  exact { h with
    buffer := hbuf
    pending := hreadable
    writing := iff_of_false (by rw [Bool.not_eq_true]; exact hoff) (not_not_intro rfl)
    written := hwritten
    registered := hreg
    added := hadded
    reading := hreading
    live := ⟨hlive.trans h.live.1, h.live.2⟩ }

/-- The callback is queued, and a shutdown that waited comes through. -/
theorem outputDrained_carries (h : Carries (s.onChannel Channel.disableWriting) p)
    (hnil : p.pending = []) :
    Carries (outputDrained s)
      { p with
        due := p.due + 1
        shut := if p.isOpen then p.shut else p.shut ++ [p.written.length] } := by
  have hqueued := queueInLoop_carries h
  have hshut := shutdownInLoop_carries hqueued
  have hstate := hqueued.state
  unfold outputDrained
  dsimp only
  rw [if_pos h.callback]
  cases hopen : p.isOpen with
  | true =>
      simp only [hopen, if_true] at hstate
      rw [if_neg (by rw [hstate]; decide)]
      simpa [hopen] using hqueued
  | false =>
      simp only [hopen, Bool.false_eq_true, if_false] at hstate
      rw [if_pos hstate]
      simpa [hopen, hnil] using hshut

theorem handleWrite_carries (h : Carries s p) (hne : p.pending ≠ []) (n : Nat) :
    Carries (handleWrite s (.ok n)) (p.drain n) := by
  obtain ⟨hbuf, hreadable, hwritten⟩ := drainOutput_yields h n
  have hwriting : s.conn.channel.isWriting = true := h.writing.mpr hne
  unfold handleWrite Pipe.drain
  rw [if_pos hwriting]
  dsimp only
  by_cases hall : p.pending.length ≤ n
  · rw [List.drop_of_length_le hall] at hreadable
    have hzero := (Buffer.readable_eq_nil_iff hbuf).mp hreadable
    rw [if_neg (not_not_intro hzero), if_pos hall, ← List.length_append]
    exact outputDrained_carries (drained_carries h hall) rfl
  · have hleft : p.pending.drop n ≠ [] := mt List.drop_eq_nil_iff.mp hall
    have hmore : (drainOutput s (.ok n)).conn.outputBuffer.readableBytes ≠ 0 := by
      rw [ne_eq, ← Buffer.readable_eq_nil_iff hbuf, hreadable]
      exact hleft
    rw [if_pos hmore, if_neg hall]
    exact { h with
      buffer := hbuf
      pending := hreadable
      writing := iff_of_true hwriting hleft
      written := hwritten }

/-- A user of the connection sets the write-complete callback. -/
def World.setWriteCompleteCallback (s : World) : World :=
  { s with conn := { s.conn with writeCompleteCallback := true } }

/-- An established connection is a new pipe for whoever sets the callback. -/
theorem connectEstablished_carries (self fd : Nat) {epoll : Epoll} (wc : Bool) (mark : Nat)
    (hmap : epoll.channelMap fd = none) (hkernel : epoll.kernel fd = none)
    (hlive : epoll.fatal = false) :
    Carries (connectEstablished (newConnection self fd epoll wc false mark) []).setWriteCompleteCallback
      Pipe.new := by
  have hreg : epoll.Registered (newConnection self fd epoll wc false mark).conn.channel :=
    ⟨hmap, hkernel⟩
  have hset := Channel.setEvents_registered hreg fun ch => { ch.events with read := true }
  exact
    { state := rfl
      buffer := Buffer.new_inv _
      pending := Buffer.readable_new _
      writing := iff_of_false Bool.false_ne_true (not_not_intro rfl)
      written := rfl
      shut := rfl
      queue := rfl
      callback := rfl
      noMark := rfl
      registered := hset.1
      added := rfl
      reading := rfl
      live := ⟨hset.2.trans hlive, rfl⟩ }

/-! ## The machine -/

/-- The writable event. -/
theorem step_handleWrite (h : Carries s p) (hidle : s.functors = []) (n : Nat) :
    step s (.handleEvent { epollout := true } { write := .ok n }) = some (handleWrite s (.ok n)) := by
  simp [step, h.live, hidle, h.kernel, handleEvent]

theorem step_swapFunctors (h : Carries s p) (hidle : s.functors = []) :
    step s .swapFunctors = some { s with functors := s.pendingFunctors, pendingFunctors := [] } := by
  simp [step, h.live, hidle]

theorem swapFunctors_carries (h : Carries s p) (hidle : s.functors = []) :
    Carries { s with functors := s.pendingFunctors, pendingFunctors := [] } p :=
  { h with queue := by simpa [hidle] using h.queue }

/-- The callback at the head of the batch runs; `calls` is what it does. -/
theorem step_runFunctor (h : Carries s p) {f : Functor} {fs : List Functor} (hfs : s.functors = f :: fs)
    (r : WriteResult) (calls : List Call) :
    step s (.runFunctor r calls) =
      some (userCallback { s with functors := fs } .writeComplete calls) ∧
    Carries { s with functors := fs } { p with due := p.due - 1 } ∧ 0 < p.due := by
  have hqueue := h.queue
  rw [hfs, List.cons_append] at hqueue
  obtain ⟨due, hdue⟩ : ∃ due, p.due = due + 1 := by
    cases hcount : p.due with
    | zero =>
        rw [hcount] at hqueue
        cases hqueue
    | succ due => exact ⟨due, rfl⟩
  rw [hdue, List.replicate_succ, List.cons.injEq] at hqueue
  obtain ⟨rfl, hrest⟩ := hqueue
  refine ⟨?_, { h with queue := ?_ }, by omega⟩
  · simp [step, h.live, hfs, runFunctor]
  · rw [hdue]
    exact hrest

end TcpConnection
end Youth.Net
