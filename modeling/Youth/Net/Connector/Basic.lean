/-
  Youth.Net.Connector.Basic

  The connector of `youth/net/Connector.cpp`: it makes a socket, starts connecting,
  waits on a channel for the outcome and hands the socket over, or closes it and
  retries.

  A socket is named by the order in which `createNonblockingOrDie` made it, so that a
  descriptor number that the kernel gives out again is not mistaken for the socket that
  had it before.  Every system call on a socket is kept in `log`; the results of the
  calls are arguments.  The process ends (`dead`) at a null `m_channelPtr` and at the
  `LOG_FATAL` of a failed `EPOLL_CTL_ADD`.

  Left out: the log lines, the address, and the assertions (the default build has none;
  `handleWrite`'s own is satisfied in the state after `handleError`).
-/

import Youth.Net.Epoll.Spec

namespace Youth.Net
namespace Connector

open Youth.Lib

inductive States
  | kDisconnected
  | kConnecting
  | kConnected
  deriving DecidableEq, Repr

/-- `savedErrno` after `::connect`. -/
inductive Errno
  | zero
  | EINTR
  | EISCONN
  | EINPROGRESS
  | EAGAIN
  | EADDRINUSE
  | EADDRNOTAVAIL
  | ENETUNREACH
  | ECONNREFUSED
  | EPERM
  | EBADF
  | EACCES
  | EFAULT
  | ENOTSOCK
  | EAFNOSUPPORT
  | EALREADY
  | other
  deriving DecidableEq, Repr

/-- A call on a socket. -/
inductive SockCall
  | connect (sock : Nat)
  | epollCtl (sock : Nat)
  | getSocketError (sock : Nat)
  | isSelfConnect (sock : Nat)
  | close (sock : Nat)
  /-- `m_newConnectionCallback(sockfd)`: the socket is the callback's from now on. -/
  | newConnection (sock : Nat)
  deriving DecidableEq, Repr

def SockCall.sock : SockCall → Nat
  | .connect sock | .epollCtl sock | .getSocketError sock | .isSelfConnect sock | .close sock
  | .newConnection sock => sock

/-- The connector gives the socket up: closed, or handed over. -/
def SockCall.isRelease : SockCall → Bool
  | .close _ | .newConnection _ => true
  | _ => false

inductive Functor
  | startInLoop
  | stopInLoop
  | resetChannel
  deriving DecidableEq, Repr

def kInitRetryDelayMs : Nat := 500

def kMaxRetryDelayMs : Nat := 30 * 1000

/-- The connector, its loop and its sockets. -/
structure World where
  state : States := .kDisconnected
  /-- `m_connect`. -/
  connect : Bool := false
  /-- `m_channelPtr`. -/
  channel : Option Channel := none
  retryDelayMs : Nat := kInitRetryDelayMs
  epoll : Epoll
  nextSock : Nat := 0
  pendingFunctors : List Functor := []
  /-- What is left of the batch that `doPendingFunctors` took. -/
  functors : List Functor := []
  /-- The delays of the retry timers that have not fired. -/
  timers : List Nat := []
  log : List SockCall := []
  dead : Bool := false

def World.call (w : World) (c : SockCall) : World := { w with log := w.log ++ [c] }

def World.queueInLoop (w : World) (f : Functor) : World :=
  { w with pendingFunctors := w.pendingFunctors ++ [f] }

/-- The socket has been given up before. -/
def Released (log : List SockCall) (sock : Nat) : Prop :=
  ∃ c ∈ log, c.isRelease = true ∧ c.sock = sock

instance (log : List SockCall) (sock : Nat) : Decidable (Released log sock) :=
  inferInstanceAs (Decidable (∃ c ∈ log, c.isRelease = true ∧ c.sock = sock))

/-- `SocketFunc::close`; the kernel also drops the registration. -/
def close (w : World) (sock : Nat) : World :=
  let w := w.call (.close sock)
  { w with epoll := { w.epoll with kernel := Function.update w.epoll.kernel sock none } }

/-- An operation on `channel`, which stays `m_channelPtr`. -/
def onChannel (w : World) (channel : Channel) (op : Channel.Op) : World :=
  let x := (op channel w.epoll).val
  { w with channel := some x.1, epoll := x.2 }

def retry (w : World) (sock : Nat) : World :=
  let w := close w sock
  let w := { w with state := .kDisconnected }
  if w.connect then
    { w with
      timers := w.timers ++ [w.retryDelayMs]
      retryDelayMs := min (w.retryDelayMs * 2) kMaxRetryDelayMs }
  else w

/-- A channel for the socket, waiting for writability; what `m_channelPtr` held before is
    destroyed. -/
def connecting (w : World) (sock : Nat) : World :=
  let w := { w with state := .kConnecting }
  let channel : Channel := { self := sock, fd := sock }
  onChannel (w.call (.epollCtl sock)) channel Channel.enableWriting

/-- `connect()`: a new socket, then the three ways of its `switch`. -/
def connect (w : World) (errno : Errno) : World :=
  let sock := w.nextSock
  let w := { w with nextSock := sock + 1 }.call (.connect sock)
  match errno with
  | .zero | .EINTR | .EISCONN | .EINPROGRESS => connecting w sock
  | .EAGAIN | .EADDRINUSE | .EADDRNOTAVAIL | .ENETUNREACH | .ECONNREFUSED => retry w sock
  | .EPERM | .EBADF | .EACCES | .EFAULT | .ENOTSOCK | .EAFNOSUPPORT | .EALREADY => close w sock
  | .other => close w sock

def startInLoop (w : World) (errno : Errno) : World :=
  if w.connect then connect w errno else w

/-- `disableAll()` on a channel whose socket may be gone: an `ADD` then fails with `EBADF`
    unless the number is in use again (`reused`). -/
def disableAll (w : World) (channel : Channel) (reused : Bool) : World :=
  let gone := Released w.log channel.fd
  let w := w.call (.epollCtl channel.fd)
  if gone ∧ channel.index ≠ .kAdded ∧ reused = false then { w with dead := true }
  else onChannel w channel Channel.disableAll

/-- `remove()`; `Epoll::removeChannel` calls the kernel for an added channel only. -/
def remove (w : World) (channel : Channel) : World :=
  let w := if channel.index = .kAdded then w.call (.epollCtl channel.fd) else w
  onChannel w channel Channel.remove

/-- `none` when the process did not survive it. -/
def removeAndResetChannel (w : World) (reused : Bool) : World × Option Nat :=
  match w.channel with
  | none => ({ w with dead := true }, none)
  | some channel =>
    let w := disableAll w channel reused
    match w.dead, w.channel with
    | false, some channel => ((remove w channel).queueInLoop .resetChannel, some channel.fd)
    | _, _ => (w, none)

def resetChannel (w : World) : World := { w with channel := none }

def stopInLoop (w : World) : World :=
  if w.state = .kConnecting then
    let r := removeAndResetChannel { w with state := .kDisconnected } false
    match r.2 with
    | some sock => retry r.1 sock
    | none => r.1
  else w

def start (w : World) (tid : ThreadId) (errno : Errno) : World :=
  let w := { w with connect := true }
  if tid = loopThread then startInLoop w errno else w.queueInLoop .startInLoop

/-- In the loop thread. -/
def restart (w : World) (errno : Errno) : World :=
  startInLoop { w with state := .kDisconnected, retryDelayMs := kInitRetryDelayMs, connect := true }
    errno

def stop (w : World) : World := { w with connect := false }.queueInLoop .stopInLoop

/-! ## Events -/

/-- What the handlers of one event meet. -/
structure Inputs where
  /-- `SO_ERROR` is not zero, in `handleWrite`. -/
  err : Bool := false
  selfConnect : Bool := false
  /-- The number of a closed descriptor is in use again. -/
  reused : Bool := false
  deriving DecidableEq, Repr

def handleError (w : World) (i : Inputs) : World :=
  if w.state = .kConnecting then
    let r := removeAndResetChannel w i.reused
    match r.2 with
    | some sock => retry (r.1.call (.getSocketError sock)) sock
    | none => r.1
  else w

/-- What `handleWrite` does with the socket once the channel is removed. -/
def connected (w : World) (sock : Nat) (i : Inputs) : World :=
  let w := w.call (.getSocketError sock)
  if i.err then retry w sock
  else
    let w := w.call (.isSelfConnect sock)
    if i.selfConnect then retry w sock
    else
      let w := { w with state := .kConnected }
      -- the source tests `m_state`, which it has just set
      if w.state ≠ .kDisconnected then w.call (.newConnection sock) else close w sock

def handleWrite (w : World) (i : Inputs) : World :=
  let r := removeAndResetChannel w i.reused
  match r.2 with
  | some sock => connected r.1 sock i
  | none => r.1

/-- `Channel::handleEventWithGuard`; the connector sets the error and the write callback. -/
def handleEvent (w : World) (revents : Revents) (i : Inputs) : World :=
  let w := if revents.epollerr ∨ revents.pollnval then handleError w i else w
  if revents.epollout ∧ w.dead = false then handleWrite w i else w

/-! ## The machine -/

inductive Action
  | start (tid : ThreadId) (errno : Errno)
  | restart (errno : Errno)
  | stop
  | handleEvent (revents : Revents) (i : Inputs)
  /-- `doPendingFunctors` takes the queue. -/
  | swapFunctors
  | runFunctor (errno : Errno)
  /-- A retry timer fires; `errno` is for its `startInLoop`. -/
  | retryTimer (i : Nat) (errno : Errno)
  deriving DecidableEq, Repr

def runFunctor (w : World) (errno : Errno) : Functor → World
  | .startInLoop => startInLoop w errno
  | .stopInLoop => stopInLoop w
  | .resetChannel => resetChannel w

/-- The kernel may report events of the channel that `m_channelPtr` holds. -/
def World.watching (w : World) : Bool :=
  w.channel.any fun channel => (w.epoll.kernel channel.fd).isSome

def step (w : World) (a : Action) : Option World :=
  if w.dead then none
  else
    match a with
    | .start tid errno => some (start w tid errno)
    | .restart errno => some (restart w errno)
    | .stop => some (stop w)
    | .handleEvent revents i =>
      if w.functors = [] ∧ w.watching then some (handleEvent w revents i) else none
    | .swapFunctors =>
      if w.functors = [] then some { w with functors := w.pendingFunctors, pendingFunctors := [] }
      else none
    | .runFunctor errno =>
      match w.functors with
      | [] => none
      | f :: fs => some (runFunctor { w with functors := fs } errno f)
    | .retryTimer i errno =>
      if i < w.timers.length then some (startInLoop { w with timers := w.timers.eraseIdx i } errno)
      else none

/-- The steps of a live process, with their guards. -/
inductive Steps (w : World) : Action → World → Prop
  | start (tid : ThreadId) (errno : Errno) : Steps w (.start tid errno) (start w tid errno)
  | restart (errno : Errno) : Steps w (.restart errno) (restart w errno)
  | stop : Steps w .stop (stop w)
  | handleEvent (revents : Revents) (i : Inputs) (hidle : w.functors = [])
      (hwatch : w.watching = true) : Steps w (.handleEvent revents i) (handleEvent w revents i)
  | swapFunctors (hidle : w.functors = []) :
      Steps w .swapFunctors { w with functors := w.pendingFunctors, pendingFunctors := [] }
  | runFunctor (errno : Errno) (f : Functor) (fs : List Functor) (hfs : w.functors = f :: fs) :
      Steps w (.runFunctor errno) (runFunctor { w with functors := fs } errno f)
  | retryTimer (i : Nat) (errno : Errno) (hi : i < w.timers.length) :
      Steps w (.retryTimer i errno) (startInLoop { w with timers := w.timers.eraseIdx i } errno)

theorem steps_of_step {w w' : World} {a : Action} (h : step w a = some w') :
    w.dead = false ∧ Steps w a w' := by
  unfold step at h
  split at h
  · cases h
  next hdead =>
    refine ⟨by simpa using hdead, ?_⟩
    cases a with
    | start tid errno =>
        cases h
        exact .start tid errno
    | restart errno =>
        cases h
        exact .restart errno
    | stop =>
        cases h
        exact .stop
    | handleEvent revents i =>
        dsimp only at h
        split at h
        next hguard =>
          cases h
          exact .handleEvent revents i hguard.1 hguard.2
        · cases h
    | swapFunctors =>
        dsimp only at h
        split at h
        next hidle =>
          cases h
          exact .swapFunctors hidle
        · cases h
    | runFunctor errno =>
        dsimp only at h
        split at h
        · cases h
        next f fs hfs =>
          cases h
          exact .runFunctor errno f fs hfs
    | retryTimer i errno =>
        dsimp only at h
        split at h
        next hi =>
          cases h
          exact .retryTimer i errno hi
        · cases h

/-- A new connector on an empty poller. -/
def newConnector : World := { epoll := Epoll.empty }

end Connector
end Youth.Net
