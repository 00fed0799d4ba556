/-
  Youth.Net.TcpClient.Basic

  The client of `youth/net/TcpClient.cpp`: a connector, and the connections that are made
  of the sockets it hands over.

  The machine is the connector (`Youth.Net.Connector.Basic`) in its loop, together with
  what the client adds: `newConnection`, `removeConnection` and the calls of its user.  The
  functors of the connector stand in the queue of the loop among those of the connections.
  The loop takes turns: it polls, handles the events of the channels that were in the
  poller at that time, and runs the functors that wait.

  Of a connection the client sees that it is up from `connectEstablished` until it calls
  its close callback, which it does once (`Youth.Net.TcpConnection.DownOnce`).  The field
  `log` is a ghost.  Left out: the callbacks handed on to the connection, its own functors
  (they do not come back to the client), the log lines and the destructor.
-/

import Youth.Core.DateTime
import Youth.Net.Connector.Stopped
import Youth.Net.HostAddress

namespace Youth.Net
namespace TcpClient

open Youth.Lib
open Youth.Core (int32)

/-- A `TcpConnection` of the client; its socket tells it from the others. -/
structure Connection where
  sock : Nat
  name : List Char
  deriving DecidableEq, Repr

inductive Functor
  | connector (f : Connector.Functor)
  | forceCloseInLoop (conn : Connection)
  | connectDestroyed (conn : Connection)
  deriving DecidableEq, Repr

def Functor.connector? : Functor → Option Connector.Functor
  | .connector f => some f
  | _ => none

/-- What has happened. -/
inductive Event
  /-- `newConnection` has made this one; `m_tcpConnectionPtr` held `found` before. -/
  | connected (conn : Connection) (found : Option Connection)
  /-- `removeConnection` is called; `m_tcpConnectionPtr` holds `found`. -/
  | closed (conn : Connection) (found : Option Connection)
  /-- `connectDestroyed` has run. -/
  | destroyed (conn : Connection)
  deriving DecidableEq, Repr

structure World where
  name : List Char
  connector : Connector.World := Connector.newConnector
  retry : Bool := false
  connect : Bool := true
  nextConnId : Int := 1
  /-- `m_tcpConnectionPtr`. -/
  tcpConnection : Option Connection := none
  /-- The connections that have not called their close callback. -/
  up : List Connection := []
  /-- The connections whose channels the last poll has asked for. -/
  polled : List Connection := []
  /-- The loop handles the events of a poll; else it runs functors. -/
  handling : Bool := false
  pendingFunctors : List Functor := []
  /-- What is left of the batch that `doPendingFunctors` took. -/
  functors : List Functor := []
  log : List Event := []

def World.record (w : World) (e : Event) : World := { w with log := w.log ++ [e] }

def World.queueInLoop (w : World) (f : Functor) : World :=
  { w with pendingFunctors := w.pendingFunctors ++ [f] }

/-- The connector is in the state `c` now; what it has queued stands in the loop. -/
def World.withConnector (w : World) (c : Connector.World) : World :=
  { w with
    connector := c
    pendingFunctors := w.pendingFunctors ++
      (c.pendingFunctors.drop w.connector.pendingFunctors.length).map .connector }

/-- `m_name + buf`. -/
def connName (w : World) (peerAddr : HostAddress) : List Char :=
  w.name ++ snprintf 32 (':' :: peerAddr.ipAndPort ++ '#' :: formatInt w.nextConnId)

/-- `newConnection`, up to the connection callback. -/
def newConnection (w : World) (sockfd : Nat) (peerAddr : HostAddress) : World :=
  let conn : Connection := ⟨sockfd, connName w peerAddr⟩
  let w := w.record (.connected conn w.tcpConnection)
  { w with
    nextConnId := int32 (w.nextConnId + 1)
    tcpConnection := some conn
    up := w.up ++ [conn] }

/-- `removeConnection`; `errno` is for the `::connect` of a `restart`. -/
def removeConnection (w : World) (conn : Connection) (errno : Connector.Errno) : World :=
  let w := w.record (.closed conn w.tcpConnection)
  let w := { w with tcpConnection := none }
  let w := w.queueInLoop (.connectDestroyed conn)
  if w.retry ∧ w.connect then w.withConnector (Connector.restart w.connector errno) else w

/-- `handleClose` of a connection, with its close callback. -/
def handleClose (w : World) (conn : Connection) (errno : Connector.Errno) : World :=
  removeConnection { w with up := w.up.erase conn } conn errno

def connect (w : World) (tid : ThreadId) (errno : Connector.Errno) : World :=
  let w := { w with connect := true }
  w.withConnector (Connector.start w.connector tid errno)

/-- `disconnect`; the connection is shut down for writing, if there is one. -/
def disconnect (w : World) : World := { w with connect := false }

def stop (w : World) : World :=
  let w := { w with connect := false }
  w.withConnector (Connector.stop w.connector)

def enableRetry (w : World) : World := { w with retry := true }

/-- `TcpConnection::forceClose`, with a pointer from `connection()` or from a callback. -/
def forceClose (w : World) (conn : Connection) : World :=
  if conn ∈ w.up then w.queueInLoop (.forceCloseInLoop conn) else w

/-! ## The loop -/

inductive Action
  | connect (tid : ThreadId) (errno : Connector.Errno)
  | disconnect
  | stop
  | enableRetry
  | forceClose (conn : Connection)
  /-- `epoll_wait` returns. -/
  | poll
  /-- An event of the connector's channel; `peerAddr` is what `getPeerAddr` finds. -/
  | handleEvent (revents : Revents) (i : Connector.Inputs) (peerAddr : HostAddress)
  /-- A retry timer of the connector. -/
  | retryTimer (i : Nat) (errno : Connector.Errno)
  /-- An event at which a connection goes down: the peer has closed. -/
  | hangUp (conn : Connection) (errno : Connector.Errno)
  /-- `doPendingFunctors` takes the queue. -/
  | swapFunctors
  | runFunctor (errno : Connector.Errno)
  deriving DecidableEq, Repr

def connectorStep (w : World) (a : Connector.Action) : Option World :=
  (Connector.step w.connector a).map w.withConnector

/-- An event of the connector's channel; `handleWrite` alone calls
    `m_newConnectionCallback`. -/
def handleEvent (w : World) (revents : Revents) (i : Connector.Inputs) (peerAddr : HostAddress) :
    Option World :=
  (connectorStep w (.handleEvent revents i)).map fun w' =>
    (Connector.delivered (w'.connector.log.drop w.connector.log.length)).foldl
      (fun w sockfd => newConnection w sockfd peerAddr) w'

def runFunctor (w : World) (errno : Connector.Errno) : Functor → Option World
  | .connector _ => connectorStep w (.runFunctor errno)
  | .forceCloseInLoop conn => some (if conn ∈ w.up then handleClose w conn errno else w)
  | .connectDestroyed conn => some (w.record (.destroyed conn))

def step (w : World) (a : Action) : Option World :=
  if w.connector.dead then none
  else
    match a with
    | .connect tid errno => some (connect w tid errno)
    | .disconnect => some (disconnect w)
    | .stop => some (stop w)
    | .enableRetry => some (enableRetry w)
    | .forceClose conn => some (forceClose w conn)
    | .poll =>
      if w.handling = false ∧ w.functors = [] then some { w with handling := true, polled := w.up }
      else none
    | .handleEvent revents i peerAddr =>
      if w.handling then handleEvent w revents i peerAddr else none
    | .retryTimer i errno => if w.handling then connectorStep w (.retryTimer i errno) else none
    | .hangUp conn errno =>
      if w.handling ∧ conn ∈ w.polled ∧ conn ∈ w.up then some (handleClose w conn errno) else none
    | .swapFunctors =>
      if w.handling then
        (Connector.step w.connector .swapFunctors).map fun c =>
          { w with
            connector := c, handling := false, functors := w.pendingFunctors, pendingFunctors := [] }
      else none
    | .runFunctor errno =>
      match w.functors with
      | [] => none
      | f :: fs => runFunctor { w with functors := fs } errno f

/-- The constructor. -/
def newClient (name : List Char) : World := { name := name }

/-- The steps of a live process, with their guards. -/
inductive Steps (w : World) : Action → World → Prop
  | connect (tid : ThreadId) (errno : Connector.Errno) :
      Steps w (.connect tid errno) (connect w tid errno)
  | disconnect : Steps w .disconnect (disconnect w)
  | stop : Steps w .stop (stop w)
  | enableRetry : Steps w .enableRetry (enableRetry w)
  | forceClose (conn : Connection) : Steps w (.forceClose conn) (forceClose w conn)
  | poll (hturn : w.handling = false) (hidle : w.functors = []) :
      Steps w .poll { w with handling := true, polled := w.up }
  | handleEvent (revents : Revents) (i : Connector.Inputs) (peerAddr : HostAddress)
      (c : Connector.World) (hturn : w.handling = true)
      (hc : Connector.step w.connector (.handleEvent revents i) = some c) :
      Steps w (.handleEvent revents i peerAddr)
        ((Connector.delivered (c.log.drop w.connector.log.length)).foldl
          (fun w sockfd => newConnection w sockfd peerAddr) (w.withConnector c))
  | retryTimer (i : Nat) (errno : Connector.Errno) (c : Connector.World)
      (hc : Connector.step w.connector (.retryTimer i errno) = some c) :
      Steps w (.retryTimer i errno) (w.withConnector c)
  | hangUp (conn : Connection) (errno : Connector.Errno) (hpolled : conn ∈ w.polled)
      (hup : conn ∈ w.up) : Steps w (.hangUp conn errno) (handleClose w conn errno)
  | swapFunctors (c : Connector.World) (hturn : w.handling = true)
      (hc : Connector.step w.connector .swapFunctors = some c) :
      Steps w .swapFunctors
        { w with
          connector := c, handling := false, functors := w.pendingFunctors, pendingFunctors := [] }
  | connectorFunctor (errno : Connector.Errno) (f : Connector.Functor) (fs : List Functor)
      (c : Connector.World) (hfs : w.functors = .connector f :: fs)
      (hc : Connector.step w.connector (.runFunctor errno) = some c) :
      Steps w (.runFunctor errno) ({ w with functors := fs }.withConnector c)
  | forceCloseInLoop (errno : Connector.Errno) (conn : Connection) (fs : List Functor)
      (hfs : w.functors = .forceCloseInLoop conn :: fs) (hup : conn ∈ w.up) :
      Steps w (.runFunctor errno) (handleClose { w with functors := fs } conn errno)
  | forceCloseDown (errno : Connector.Errno) (conn : Connection) (fs : List Functor)
      (hfs : w.functors = .forceCloseInLoop conn :: fs) (hdown : conn ∉ w.up) :
      Steps w (.runFunctor errno) { w with functors := fs }
  | connectDestroyed (errno : Connector.Errno) (conn : Connection) (fs : List Functor)
      (hfs : w.functors = .connectDestroyed conn :: fs) :
      Steps w (.runFunctor errno) ({ w with functors := fs }.record (.destroyed conn))

theorem steps_of_step {w w' : World} {a : Action} (h : step w a = some w') :
    w.connector.dead = false ∧ Steps w a w' := by
  unfold step at h
  split at h
  · cases h
  next hdead =>
    refine ⟨by simpa using hdead, ?_⟩
    cases a with
    | connect tid errno =>
        cases h
        exact .connect tid errno
    | disconnect =>
        cases h
        exact .disconnect
    | stop =>
        cases h
        exact .stop
    | enableRetry =>
        cases h
        exact .enableRetry
    | forceClose conn =>
        cases h
        exact .forceClose conn
    | poll =>
        obtain ⟨⟨hturn, hidle⟩, heq⟩ := Option.ite_none_right_eq_some.mp h
        cases heq
        exact .poll hturn hidle
    | handleEvent revents i peerAddr =>
        obtain ⟨hturn, heq⟩ := Option.ite_none_right_eq_some.mp h
        obtain ⟨w1, hw1, rfl⟩ := Option.map_eq_some_iff.mp heq
        obtain ⟨c, hc, rfl⟩ := Option.map_eq_some_iff.mp hw1
        exact .handleEvent revents i peerAddr c hturn hc
    | retryTimer i errno =>
        obtain ⟨-, heq⟩ := Option.ite_none_right_eq_some.mp h
        obtain ⟨c, hc, rfl⟩ := Option.map_eq_some_iff.mp heq
        exact .retryTimer i errno c hc
    | hangUp conn errno =>
        obtain ⟨⟨-, hpolled, hup⟩, heq⟩ := Option.ite_none_right_eq_some.mp h
        cases heq
        exact .hangUp conn errno hpolled hup
    | swapFunctors =>
        obtain ⟨hturn, heq⟩ := Option.ite_none_right_eq_some.mp h
        obtain ⟨c, hc, rfl⟩ := Option.map_eq_some_iff.mp heq
        exact .swapFunctors c hturn hc
    | runFunctor errno =>
        dsimp only at h
        split at h
        · cases h
        next f fs hfs =>
          cases f with
          | connector f =>
              obtain ⟨c, hc, rfl⟩ := Option.map_eq_some_iff.mp h
              exact .connectorFunctor errno f fs c hfs hc
          | forceCloseInLoop conn =>
              simp only [runFunctor, Option.some.injEq] at h
              split at h
              next hup =>
                cases h
                exact .forceCloseInLoop errno conn fs hfs hup
              next hdown =>
                cases h
                exact .forceCloseDown errno conn fs hfs hdown
          | connectDestroyed conn =>
              cases h
              exact .connectDestroyed errno conn fs hfs

end TcpClient
end Youth.Net
