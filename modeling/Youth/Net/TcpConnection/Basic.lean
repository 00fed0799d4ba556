/-
  Youth.Net.TcpConnection.Basic

  One connection of `youth/net/TcpConnection.cpp`, with the parts of its loop and of
  the kernel that it works on: its entry in the poller, the functor queue of
  `EventLoop` and the bytes its socket has taken.

  What comes from outside is an argument: the result of each `::write` and read, and
  the calls that user code makes on the connection from inside a callback.  The
  assertions do not stop a run (the default build has none); those that would have
  failed are kept in `faults`.  The fields `sent` and `handled` are ghosts, for
  statements only.

  Left out: names and addresses, the context, the log lines, and `m_reading`'s
  getter.  `handleError` only reads and logs `SO_ERROR`.
-/

import Youth.Net.Buffer.Spec
import Youth.Net.Epoll.Spec

namespace Youth.Net

open Youth.Lib

inductive StateE
  | kDisconnected
  | kConnecting
  | kConnected
  | kDisconnecting
  deriving DecidableEq, Repr

/-- The `errno`s the connection tells apart. -/
inductive Errno
  | EWOULDBLOCK
  | EPIPE
  | ECONNRESET
  | other
  deriving DecidableEq, Repr

/-- What `::write` returns: a count, cut to the length it was given, or a failure. -/
inductive WriteResult
  | ok (n : Nat)
  | error (errno : Errno)
  deriving DecidableEq, Repr

/-- The functors that end up in the loop's queue.  A queued send keeps the thread it
    came from (a ghost). -/
inductive Functor
  | sendInLoop (tid : ThreadId) (message : List UInt8)
  | shutdownInLoop
  | forceCloseInLoop
  | startReadInLoop
  | stopReadInLoop
  | writeCompleteCallback
  | highWaterMarkCallback (size : Nat)
  | connectDestroyed
  deriving DecidableEq, Repr

/-- The calls of user callbacks and of the owner's close callback. -/
inductive Callback
  | connection (connected : Bool)
  | message
  | writeComplete
  | highWaterMark (size : Nat)
  | close
  deriving DecidableEq, Repr

structure TcpConnection where
  state : StateE := .kConnecting
  reading : Bool := true
  channel : Channel
  inputBuffer : Buffer := Buffer.new Buffer.kInitialSize
  outputBuffer : Buffer := Buffer.new Buffer.kInitialSize
  /-- Whether `m_writeCompleteCallback` is set. -/
  writeCompleteCallback : Bool := false
  /-- Whether `m_highWaterMarkCallback` is set. -/
  highWaterMarkCallback : Bool := false
  highWaterMark : Nat := 64 * 1024 * 1024

namespace TcpConnection

/-- The assertions met on the way. -/
inductive Assert
  | epoll (a : Epoll.Assert)
  | buffer (a : Buffer.Assert)
  | connectEstablished
  | handleClose
  deriving DecidableEq, Repr

/-- The connection, its loop and its socket. -/
structure World where
  conn : TcpConnection
  epoll : Epoll
  /-- The bytes `::write` has taken, oldest first. -/
  written : List UInt8 := []
  /-- For each `shutdown(SHUT_WR)`, how many bytes had been written before it. -/
  shutWr : List Nat := []
  /-- `m_pendingFunctors`. -/
  pendingFunctors : List Functor := []
  /-- What is left of the batch that `doPendingFunctors` took. -/
  functors : List Functor := []
  /-- Timers of `forceCloseWithDelay` that have not fired. -/
  delayed : Nat := 0
  /-- Calls of the close callback whose `connectDestroyed` is not queued yet. -/
  closing : Nat := 0
  callbacks : List Callback := []
  faults : List Assert := []
  /-- `stopReadInLoop` calls itself without end. -/
  overflow : Bool := false
  /-- Ghost: the sends accepted while connected, in call order. -/
  sent : List (ThreadId × List UInt8) := []
  /-- Ghost: the sends whose `sendInLoop` has run, in that order. -/
  handled : List (ThreadId × List UInt8) := []

namespace World

/-- An operation on the connection's channel. -/
def onChannel (s : World) (op : Channel.Op) : World :=
  let x := op s.conn.channel s.epoll
  { s with
    conn := { s.conn with channel := x.val.1 }
    epoll := x.val.2
    faults := s.faults ++ x.faults.map .epoll }

def setState (s : World) (state : StateE) : World :=
  { s with conn := { s.conn with state := state } }

/-- An operation on the output buffer. -/
def setOutput (s : World) (x : Checked Buffer.Assert Buffer) : World :=
  { s with
    conn := { s.conn with outputBuffer := x.val }
    faults := s.faults ++ x.faults.map .buffer }

def check (s : World) (p : Prop) [Decidable p] (a : Assert) : World :=
  { s with faults := s.faults ++ if p then [] else [a] }

def callback (s : World) (c : Callback) : World := { s with callbacks := s.callbacks ++ [c] }

/-- `EventLoop::queueInLoop`. -/
def queueInLoop (s : World) (f : Functor) : World :=
  { s with pendingFunctors := s.pendingFunctors ++ [f] }

end World

open World

/-! ## Sending -/

/-- The attempt of `sendInLoop` to write at once: how much was written, and whether
    the peer is gone. -/
def writeDirectly (s : World) (data : List UInt8) (r : WriteResult) : World × Nat × Bool :=
  if ¬s.conn.channel.isWriting ∧ s.conn.outputBuffer.readableBytes = 0 then
    match r with
    | .ok n =>
      let nwrote := min n data.length
      let s := { s with written := s.written ++ data.take nwrote }
      if data.length - nwrote = 0 ∧ s.conn.writeCompleteCallback then
        (s.queueInLoop .writeCompleteCallback, nwrote, false)
      else (s, nwrote, false)
    | .error errno => (s, 0, errno = .EPIPE ∨ errno = .ECONNRESET)
  else (s, 0, false)

/-- The rest of a message goes to the output buffer. -/
def appendOutput (s : World) (rest : List UInt8) : World :=
  let oldLen := s.conn.outputBuffer.readableBytes
  let s :=
    if s.conn.highWaterMark ≤ oldLen + rest.length ∧ oldLen < s.conn.highWaterMark ∧
        s.conn.highWaterMarkCallback then
      s.queueInLoop (.highWaterMarkCallback (oldLen + rest.length))
    else s
  let s := s.setOutput (s.conn.outputBuffer.append rest)
  if s.conn.channel.isWriting then s else s.onChannel Channel.enableWriting

def sendInLoop (s : World) (data : List UInt8) (r : WriteResult) : World :=
  if s.conn.state = .kDisconnected then s
  else
    -- if no thing in output queue, try writing directly
    let attempt := writeDirectly s data r
    let nwrote := attempt.2.1
    let faultError := attempt.2.2
    if ¬faultError ∧ 0 < data.length - nwrote then
      appendOutput attempt.1 (data.drop nwrote)
    else attempt.1

/-- `sendInLoop` for the message of a `send`, with the ghost. -/
def sendMessage (s : World) (tid : ThreadId) (message : List UInt8) (r : WriteResult) : World :=
  { sendInLoop s message r with handled := s.handled ++ [(tid, message)] }

/-- `send(const std::string_view &)`. -/
def send (s : World) (tid : ThreadId) (message : List UInt8) (r : WriteResult) : World :=
  if s.conn.state = .kConnected then
    let s := { s with sent := s.sent ++ [(tid, message)] }
    if tid = loopThread then sendMessage s tid message r
    else s.queueInLoop (.sendInLoop tid message)
  else s

/-- `send(Buffer *)`: the caller's buffer is emptied. -/
def sendBuffer (s : World) (tid : ThreadId) (buf : Buffer) (r : WriteResult) : World × Buffer :=
  if s.conn.state = .kConnected then (send s tid buf.readable r, buf.retrieveAll) else (s, buf)

/-! ## Closing -/

def shutdownInLoop (s : World) : World :=
  if s.conn.channel.isWriting then s else { s with shutWr := s.shutWr ++ [s.written.length] }

def shutdown (s : World) (tid : ThreadId) : World :=
  if s.conn.state = .kConnected then
    let s := s.setState .kDisconnecting
    if tid = loopThread then shutdownInLoop s else s.queueInLoop .shutdownInLoop
  else s

def forceClose (s : World) : World :=
  if s.conn.state = .kConnected ∨ s.conn.state = .kDisconnecting then
    (s.setState .kDisconnecting).queueInLoop .forceCloseInLoop
  else s

/-- `runAfter` leaves a timer that will call `forceClose`. -/
def forceCloseWithDelay (s : World) : World :=
  if s.conn.state = .kConnected ∨ s.conn.state = .kDisconnecting then
    { s.setState .kDisconnecting with delayed := s.delayed + 1 }
  else s

/-! ## Reading on and off -/

def startReadInLoop (s : World) : World :=
  if s.conn.reading = false ∨ s.conn.channel.isReading = false then
    let s := s.onChannel Channel.enableReading
    { s with conn := { s.conn with reading := true } }
  else s

/-- `stopReadInLoop` runs `runInLoop(stopReadInLoop)` in the loop thread, that is, itself. -/
def stopReadInLoop (s : World) : World := { s with overflow := true }

def startRead (s : World) (tid : ThreadId) : World :=
  if tid = loopThread then startReadInLoop s else s.queueInLoop .startReadInLoop

def stopRead (s : World) (tid : ThreadId) : World :=
  if tid = loopThread then stopReadInLoop s else s.queueInLoop .stopReadInLoop

/-! ## What user code may call -/

inductive Call
  | send (message : List UInt8) (r : WriteResult)
  | sendBuffer (buf : Buffer) (r : WriteResult)
  | shutdown
  | forceClose
  | forceCloseWithDelay
  | startRead
  | stopRead
  /-- The callback takes `len` bytes out of the input buffer. -/
  | retrieve (len : Nat)
  deriving DecidableEq, Repr

def call (tid : ThreadId) (s : World) : Call → World
  | .send message r => send s tid message r
  | .sendBuffer buf r => (sendBuffer s tid buf r).1
  | .shutdown => shutdown s tid
  | .forceClose => forceClose s
  | .forceCloseWithDelay => forceCloseWithDelay s
  | .startRead => startRead s tid
  | .stopRead => stopRead s tid
  | .retrieve len =>
    let x := s.conn.inputBuffer.retrieve len
    { s with
      conn := { s.conn with inputBuffer := x.val }
      faults := s.faults ++ x.faults.map .buffer }

/-- A user callback: it is called with `c` and makes `calls`, in the loop thread. -/
def userCallback (s : World) (c : Callback) (calls : List Call) : World :=
  calls.foldl (call loopThread) (s.callback c)

/-! ## Handlers -/

/-- `m_connectionCallback(shared_from_this())`, which sees `connected()`. -/
def connectionCallback (s : World) (calls : List Call) : World :=
  userCallback s (.connection (s.conn.state = .kConnected)) calls

def connectEstablished (s : World) (calls : List Call) : World :=
  let s := s.check (s.conn.state = .kConnecting) .connectEstablished
  connectionCallback ((s.setState .kConnected).onChannel Channel.enableReading) calls

def connectDestroyed (s : World) (calls : List Call) : World :=
  let s :=
    if s.conn.state = .kConnected then
      connectionCallback ((s.setState .kDisconnected).onChannel Channel.disableAll) calls
    else s
  s.onChannel Channel.remove

def handleClose (s : World) (calls : List Call) : World :=
  let s := s.check (s.conn.state = .kConnected ∨ s.conn.state = .kDisconnecting) .handleClose
  let s := connectionCallback ((s.setState .kDisconnected).onChannel Channel.disableAll) calls
  { s.callback .close with closing := s.closing + 1 }

/-- `handleRead`; `calls` are those of the callback it runs. -/
def handleRead (s : World) (r : Except Nat (List UInt8)) (calls : List Call) : World :=
  let x := s.conn.inputBuffer.readFd r
  let s :=
    { s with
      conn := { s.conn with inputBuffer := x.val.2 }
      faults := s.faults ++ x.faults.map .buffer }
  match x.val.1 with
  | .ok (_ + 1) => userCallback s .message calls
  | .ok 0 => handleClose s calls
  | .error _ => s

/-- `::write` on the output buffer, then `retrieve(n)`; a failure is `retrieve(-1)`. -/
def drainOutput (s : World) (r : WriteResult) : World :=
  let pending := s.conn.outputBuffer.readable
  match r with
  | .ok n =>
    { s.setOutput (s.conn.outputBuffer.retrieve (min n pending.length)) with
      written := s.written ++ pending.take n }
  | .error _ => s.setOutput (s.conn.outputBuffer.retrieve (sizeOfInt (-1)))

/-- The end of `handleWrite`, once the output buffer is empty. -/
def outputDrained (s : World) : World :=
  let s := s.onChannel Channel.disableWriting
  let s := if s.conn.writeCompleteCallback then s.queueInLoop .writeCompleteCallback else s
  if s.conn.state = .kDisconnecting then shutdownInLoop s else s

def handleWrite (s : World) (r : WriteResult) : World :=
  if s.conn.channel.isWriting then
    let s := drainOutput s r
    if s.conn.outputBuffer.readableBytes ≠ 0 then s else outputDrained s
  else s

def forceCloseInLoop (s : World) (calls : List Call) : World :=
  if s.conn.state = .kConnected ∨ s.conn.state = .kDisconnecting then handleClose s calls else s

/-- What the handlers of one event meet: results of the system calls and the calls made
    by the callbacks. -/
structure Inputs where
  closeCalls : List Call := []
  read : Except Nat (List UInt8) := .ok []
  readCalls : List Call := []
  write : WriteResult := .ok 0

/-- `Channel::handleEventWithGuard` with the connection's handlers. -/
def handleEvent (s : World) (revents : Revents) (i : Inputs) : World :=
  let s := if revents.epollhup ∧ ¬revents.epollin then handleClose s i.closeCalls else s
  -- EPOLLERR and POLLNVAL: `handleError` changes nothing
  let s :=
    if revents.epollin ∨ revents.epollpri ∨ revents.epollrdhup then handleRead s i.read i.readCalls
    else s
  if revents.epollout then handleWrite s i.write else s

/-- One functor of the batch. -/
def runFunctor (s : World) (f : Functor) (r : WriteResult) (calls : List Call) : World :=
  match f with
  | .sendInLoop tid message => sendMessage s tid message r
  | .shutdownInLoop => shutdownInLoop s
  | .forceCloseInLoop => forceCloseInLoop s calls
  | .startReadInLoop => startReadInLoop s
  | .stopReadInLoop => stopReadInLoop s
  | .writeCompleteCallback => userCallback s .writeComplete calls
  | .highWaterMarkCallback size => userCallback s (.highWaterMark size) calls
  | .connectDestroyed => connectDestroyed s calls

/-! ## The machine -/

/-- One step, of the loop thread or of another one. -/
inductive Action
  | connectEstablished (calls : List Call)
  /-- A call from the thread `tid`; in the loop thread, from any other handler. -/
  | call (tid : ThreadId) (c : Call)
  | handleEvent (revents : Revents) (i : Inputs)
  /-- `doPendingFunctors` takes the queue. -/
  | swapFunctors
  | runFunctor (r : WriteResult) (calls : List Call)
  /-- A timer of `forceCloseWithDelay` fires. -/
  | forceCloseTimer
  /-- The owner has erased the connection and queues `connectDestroyed`. -/
  | removeConnection

def step (s : World) (a : Action) : Option World :=
  if s.epoll.fatal ∨ s.overflow then none
  else
    match a with
    | .connectEstablished calls =>
      if s.conn.state = .kConnecting then some (connectEstablished s calls) else none
    | .call tid c => some (call tid s c)
    | .handleEvent revents i =>
      -- events come from the kernel, between two runs of `doPendingFunctors`
      if s.functors = [] ∧ (s.epoll.kernel s.conn.channel.fd).isSome then
        some (handleEvent s revents i)
      else none
    | .swapFunctors =>
      if s.functors = [] then some { s with functors := s.pendingFunctors, pendingFunctors := [] }
      else none
    | .runFunctor r calls =>
      match s.functors with
      | [] => none
      | f :: fs => some (runFunctor { s with functors := fs } f r calls)
    | .forceCloseTimer =>
      if 0 < s.delayed then some (forceClose { s with delayed := s.delayed - 1 }) else none
    | .removeConnection =>
      if 0 < s.closing then
        some ({ s with closing := s.closing - 1 }.queueInLoop .connectDestroyed)
      else none

/-- The steps of a live process, with their guards. -/
inductive Steps (s : World) : Action → World → Prop
  | connectEstablished (calls : List Call) (hstate : s.conn.state = .kConnecting) :
      Steps s (.connectEstablished calls) (connectEstablished s calls)
  | call (tid : ThreadId) (c : Call) : Steps s (.call tid c) (call tid s c)
  | handleEvent (revents : Revents) (i : Inputs) (hidle : s.functors = [])
      (hkernel : (s.epoll.kernel s.conn.channel.fd).isSome = true) :
      Steps s (.handleEvent revents i) (handleEvent s revents i)
  | swapFunctors (hidle : s.functors = []) :
      Steps s .swapFunctors { s with functors := s.pendingFunctors, pendingFunctors := [] }
  | runFunctor (r : WriteResult) (calls : List Call) (f : Functor) (fs : List Functor)
      (hfs : s.functors = f :: fs) :
      Steps s (.runFunctor r calls) (runFunctor { s with functors := fs } f r calls)
  | forceCloseTimer (hdelayed : 0 < s.delayed) :
      Steps s .forceCloseTimer (forceClose { s with delayed := s.delayed - 1 })
  | removeConnection (hclosing : 0 < s.closing) :
      Steps s .removeConnection ({ s with closing := s.closing - 1 }.queueInLoop .connectDestroyed)

theorem steps_of_step {s t : World} {a : Action} (h : step s a = some t) :
    ¬(s.epoll.fatal = true ∨ s.overflow = true) ∧ Steps s a t := by
  unfold step at h
  split at h
  · cases h
  next hlive =>
    refine ⟨hlive, ?_⟩
    cases a with
    | connectEstablished calls =>
        dsimp only at h
        split at h
        next hstate =>
          cases h
          exact .connectEstablished calls hstate
        · cases h
    | call tid c =>
        cases h
        exact .call tid c
    | handleEvent revents i =>
        dsimp only at h
        split at h
        next hguard =>
          cases h
          exact .handleEvent revents i hguard.1 hguard.2
        · cases h
    | swapFunctors =>
        dsimp only at h
        split at h
        next hidle =>
          cases h
          exact .swapFunctors hidle
        · cases h
    | runFunctor r calls =>
        dsimp only at h
        split at h
        · cases h
        next f fs hfs =>
          cases h
          exact .runFunctor r calls f fs hfs
    | forceCloseTimer =>
        dsimp only at h
        split at h
        next hdelayed =>
          cases h
          exact .forceCloseTimer hdelayed
        · cases h
    | removeConnection =>
        dsimp only at h
        split at h
        next hclosing =>
          cases h
          exact .removeConnection hclosing
        · cases h

/-- An event keeps what its three handlers keep. -/
theorem handleEvent_keeps {P : World → Prop} {i : Inputs}
    (hclose : ∀ s, P s → P (handleClose s i.closeCalls))
    (hread : ∀ s, P s → P (handleRead s i.read i.readCalls))
    (hwrite : ∀ s, P s → P (handleWrite s i.write)) {s : World} (h : P s) (revents : Revents) :
    P (handleEvent s revents i) := by
  have hclosed : P (if revents.epollhup ∧ ¬revents.epollin then handleClose s i.closeCalls
      else s) := by
    split
    · exact hclose s h
    · exact h
  simp only [handleEvent]
  generalize (if revents.epollhup = true ∧ ¬revents.epollin = true then handleClose s i.closeCalls
    else s) = s1 at hclosed ⊢
  have hreads : P (if revents.epollin ∨ revents.epollpri ∨ revents.epollrdhup then
      handleRead s1 i.read i.readCalls else s1) := by
    split
    · exact hread s1 hclosed
    · exact hclosed
  split
  · exact hwrite _ hreads
  · exact hreads

/-- A new connection on the descriptor `fd`, with the callbacks its owner has set. -/
def newConnection (self fd : Nat) (epoll : Epoll) (writeCompleteCallback highWaterMarkCallback : Bool)
    (highWaterMark : Nat) : World where
  conn :=
    { channel := { self := self, fd := fd }
      writeCompleteCallback := writeCompleteCallback
      highWaterMarkCallback := highWaterMarkCallback
      highWaterMark := highWaterMark }
  epoll := epoll

end TcpConnection
end Youth.Net
