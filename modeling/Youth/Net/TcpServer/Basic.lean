/-
  Youth.Net.TcpServer.Basic

  The connections of `youth/net/TcpServer.cpp`: `newConnection`, `removeConnection` and
  `removeConnectionInLoop`, with `getNextLoop` of `youth/net/EventLoopThreadPool.cpp`.

  Each loop has a queue of functors that runs in push order (`Youth.Net.EventLoop.Queue`).
  A step of a loop makes at most one access to the queue of another one, so the steps of
  different loops may come in any order.  When a connection calls its close callback is up
  to the connection: here it does so at most once, after `connectEstablished`
  (`Youth.Net.TcpConnection.DownOnce`).

  The field `log` is a ghost.  Left out: the callbacks handed on to the connection, the
  sockets and addresses of the peers, the log lines and the destructor.
-/

import Mathlib.Logic.Function.Basic
import Youth.Core.DateTime
import Youth.Net.HostAddress

namespace Youth.Net

/-- The loops by number, the base loop first. -/
abbrev LoopId := Nat

def baseLoop : LoopId := 0

structure EventLoopThreadPool where
  loops : List LoopId
  next : Nat
  inRange : loops ≠ [] → next < loops.length

namespace EventLoopThreadPool

def start (numThreads : Nat) : EventLoopThreadPool where
  loops := (List.range numThreads).map (· + 1)
  next := 0
  inRange := List.length_pos_iff.mpr

/-- The index of the loop after `next`. -/
def after (pool : EventLoopThreadPool) : Nat :=
  if pool.next + 1 ≥ pool.loops.length then 0 else pool.next + 1

theorem after_lt (pool : EventLoopThreadPool) (h : pool.loops ≠ []) :
    pool.after < pool.loops.length := by
  have hpos := List.length_pos_iff.mpr h
  unfold after
  split <;> omega

def getNextLoop (pool : EventLoopThreadPool) : LoopId × EventLoopThreadPool :=
  if h : pool.loops = [] then (baseLoop, pool)
  else (pool.loops.get ⟨pool.next, pool.inRange h⟩,
    { pool with next := pool.after, inRange := pool.after_lt })

end EventLoopThreadPool

namespace TcpServer

open Youth.Lib
open Youth.Core (int32)

/-- A `TcpConnection` as the server sees it. -/
structure Connection where
  /-- Tells the objects apart. -/
  id : Nat
  name : List Char
  eventLoop : LoopId
  deriving DecidableEq, Repr

inductive Functor
  | connectEstablished (conn : Connection)
  | removeConnectionInLoop (conn : Connection)
  | connectDestroyed (conn : Connection)
  deriving DecidableEq, Repr

/-- What has happened. -/
inductive Event
  | accepted (conn : Connection)
  /-- `connectEstablished` has run, in this loop. -/
  | established (conn : Connection) (loop : LoopId)
  /-- The close callback is called. -/
  | closed (conn : Connection)
  /-- `removeConnectionInLoop` has run, and `erase` returned `n`. -/
  | removed (conn : Connection) (n : Nat)
  /-- `connectDestroyed` has run, in this loop. -/
  | destroyed (conn : Connection) (loop : LoopId)
  deriving DecidableEq, Repr

structure World where
  name : List Char
  ipPort : List Char
  threadPool : EventLoopThreadPool
  nextConnId : Int := 1
  connectionMap : List Char → Option Connection := fun _ => none
  queues : LoopId → List Functor := fun _ => []
  /-- Ghost: the events, oldest first. -/
  log : List Event := []

def Event.accepted? : Event → Option Connection
  | .accepted conn => some conn
  | _ => none

/-- The connections accepted, in order. -/
def World.accepted (w : World) : List Connection := w.log.filterMap Event.accepted?

/-- The constructor and `start()`. -/
def start (name : List Char) (listenAddr : HostAddress) (numThreads : Nat) : World where
  name := name
  ipPort := listenAddr.ipAndPort
  threadPool := .start numThreads

def World.record (w : World) (e : Event) : World := { w with log := w.log ++ [e] }

def queueInLoop (w : World) (loop : LoopId) (f : Functor) : World :=
  { w with queues := Function.update w.queues loop (w.queues loop ++ [f]) }

def removeConnectionInLoop (w : World) (conn : Connection) : World :=
  let n := if (w.connectionMap conn.name).isSome then 1 else 0
  let w := { w with connectionMap := Function.update w.connectionMap conn.name none }
  queueInLoop (w.record (.removed conn n)) conn.eventLoop (.connectDestroyed conn)

/-- A functor runs in `loop`. -/
def runFunctor (w : World) (loop : LoopId) : Functor → World
  | .connectEstablished conn => w.record (.established conn loop)
  | .removeConnectionInLoop conn => removeConnectionInLoop w conn
  | .connectDestroyed conn => w.record (.destroyed conn loop)

/-- `loop->runInLoop(f)`, called in the thread of the loop `current`. -/
def runInLoop (w : World) (current loop : LoopId) (f : Functor) : World :=
  if current = loop then runFunctor w loop f else queueInLoop w loop f

/-- `m_name + buf`. -/
def connName (w : World) : List Char :=
  w.name ++ snprintf 64 ('-' :: w.ipPort ++ '#' :: formatInt w.nextConnId)

def newConnection (w : World) : World :=
  let (ioLoop, threadPool) := w.threadPool.getNextLoop
  let conn : Connection := ⟨w.accepted.length, connName w, ioLoop⟩
  let w := { w with
    threadPool := threadPool
    nextConnId := int32 (w.nextConnId + 1)
    connectionMap := Function.update w.connectionMap conn.name (some conn) }
  runInLoop (w.record (.accepted conn)) baseLoop ioLoop (.connectEstablished conn)

def removeConnection (w : World) (conn : Connection) : World :=
  runInLoop w conn.eventLoop baseLoop (.removeConnectionInLoop conn)

inductive Action
  /-- The acceptor has a connection, in the base loop. -/
  | accept
  /-- The close callback of a connection, in its loop. -/
  | close (conn : Connection)
  /-- The next functor of a loop. -/
  | runFunctor (loop : LoopId)
  deriving DecidableEq, Repr

def step (w : World) : Action → Option World
  | .accept => some (newConnection w)
  | .close conn =>
    if .established conn conn.eventLoop ∈ w.log ∧ .closed conn ∉ w.log then
      some (removeConnection (w.record (.closed conn)) conn)
    else none
  | .runFunctor loop =>
    match w.queues loop with
    | [] => none
    | f :: fs => some (runFunctor { w with queues := Function.update w.queues loop fs } loop f)

end TcpServer
end Youth.Net
