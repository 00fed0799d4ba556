/-
  Youth.Net.Acceptor.Basic

  `youth/net/Acceptor.cpp`, in a process whose other parts open and close descriptors too.

  The acceptor keeps a descriptor in reserve, `m_idleFd`.  When the process has no other
  left, it gives that one up for the connection that waits, closes the connection and opens
  the reserve again, since a connection that stays in the backlog would make the poller
  report the socket for ever.  `handleRead` is taken apart at its system calls: the other
  threads may come between any two of them.

  A connection is a number here.  The fields from `arrived` on are ghosts.  Left out: the
  errors of `accept4` at which `SocketFunc::accept` ends the process, that `open` fails for
  another reason than the limit, the options and the address of the socket, the address of
  the peer, and the channel.
-/

import Youth.Lib.Descriptors
import Youth.Lib.Machine

namespace Youth.Net
namespace Acceptor

open Youth.Lib

inductive Owner
  | acceptor
  | other
  deriving DecidableEq, Repr

/-- The errors that `SocketFunc::accept` expects. -/
inductive Errno
  | EAGAIN
  | ECONNABORTED
  | EINTR
  | EMFILE
  deriving DecidableEq, Repr

/-- What has become of a connection. -/
inductive Fate
  /-- Given to `m_newConnectionCallback`. -/
  | handed
  /-- Closed by the acceptor. -/
  | closed
  /-- Lost before it was accepted. -/
  | aborted
  deriving DecidableEq, Repr

/-- Where the loop is in `handleRead`. -/
inductive Phase
  | idle
  /-- `accept` gave a connection. -/
  | accepted (connfd conn : Nat)
  /-- It failed, and `errno` is `EMFILE`. -/
  | full
  /-- The reserve is closed. -/
  | freed
  /-- The second `accept` is done, which gave this connection. -/
  | drained (conn : Option Nat)
  /-- That one is closed. -/
  | closed
  /-- The destructor has run. -/
  | destroyed
  deriving DecidableEq, Repr

structure World where
  table : Descriptors Owner
  /-- `m_acceptSocketPtr->fd()` -/
  acceptSocket : Nat
  newConnectionCallback : Bool
  listenning : Bool := false
  idleFd : Int
  phase : Phase := .idle
  /-- The connections that wait in the kernel, oldest first. -/
  backlog : List Nat := []
  /-- Ghost: all connections that came, in order. -/
  arrived : List Nat := []
  /-- Ghost: those that left the backlog, and what became of them. -/
  gone : List (Nat × Fate) := []
  /-- Ghost: the descriptors that the acceptor closed, and whose they were. -/
  closed : List (Nat × Option Owner) := []
  /-- Ghost: how often `handleRead` found a connection waiting. -/
  events : Nat := 0

/-! ## System calls -/

/-- `::open`: a new descriptor, or -1. -/
def openFd (w : World) : World × Int :=
  match w.table.lowest with
  | some fd => ({ w with table := w.table.assign fd .acceptor }, fd)
  | none => (w, -1)

/-- What `accept4` meets in the backlog. -/
inductive Outcome
  | ready
  | aborted
  | interrupted
  deriving DecidableEq, Repr

/-- `::accept4`: a descriptor and its connection, or `errno`. -/
def accept4 (w : World) (r : Outcome) : World × Except Errno (Nat × Nat) :=
  match w.table.lowest, w.backlog, r with
  | none, _, _ => (w, .error .EMFILE)
  | some _, _, .interrupted => (w, .error .EINTR)
  | some _, [], _ => (w, .error .EAGAIN)
  | some _, conn :: backlog, .aborted =>
    ({ w with backlog := backlog, gone := w.gone ++ [(conn, .aborted)] }, .error .ECONNABORTED)
  | some fd, conn :: backlog, .ready =>
    ({ w with table := w.table.assign fd .acceptor, backlog := backlog }, .ok (fd, conn))

/-- `SocketFunc::close` -/
def close (w : World) (sockfd : Int) : World :=
  if 0 < sockfd then
    { w with
      table := w.table.close sockfd.toNat
      closed := w.closed ++ [(sockfd.toNat, w.table.owner sockfd.toNat)] }
  else w

/-! ## `handleRead` -/

/-- As far as `accept`.  `logged` is what the log line before the test makes of `errno`, if
    it does not leave it. -/
def accept (w : World) (r : Outcome) (logged : Option Errno) : World :=
  let w := { w with events := w.events + if w.backlog = [] then 0 else 1 }
  match accept4 w r with
  | (w, .ok (connfd, conn)) => { w with phase := .accepted connfd conn }
  | (w, .error errno) =>
    { w with phase := if logged.getD errno = .EMFILE then .full else .idle }

def deliver (w : World) (connfd conn : Nat) : World :=
  if w.newConnectionCallback then
    { w with
      table := w.table.assign connfd .other, gone := w.gone ++ [(conn, .handed)], phase := .idle }
  else
    { close w connfd with gone := w.gone ++ [(conn, .closed)], phase := .idle }

def closeIdle (w : World) : World := { close w w.idleFd with phase := .freed }

def acceptIdle (w : World) (r : Outcome) : World :=
  match accept4 w r with
  | (w, .ok (fd, conn)) => { w with idleFd := fd, phase := .drained (some conn) }
  | (w, .error _) => { w with idleFd := -1, phase := .drained none }

def closeAccepted (w : World) (conn : Option Nat) : World :=
  { close w w.idleFd with
    gone := w.gone ++ conn.toList.map fun conn => (conn, .closed), phase := .closed }

def reopen (w : World) : World :=
  let (w, fd) := openFd w
  { w with idleFd := fd, phase := .idle }

/-! ## The process -/

/-- The socket is there, and no reserve. -/
def created (table : Descriptors Owner) (fd : Nat) (newConnectionCallback : Bool) : World where
  table := table.assign fd .acceptor
  acceptSocket := fd
  newConnectionCallback := newConnectionCallback
  idleFd := -1

/-- The constructor; without a descriptor for its socket the process ends. -/
def start (table : Descriptors Owner) (newConnectionCallback : Bool) : Option World :=
  table.lowest.map fun fd =>
    let (w, idleFd) := openFd (created table fd newConnectionCallback)
    { w with idleFd := idleFd }

/-- The destructor, and that of the socket. -/
def destroy (w : World) : World :=
  let w := close w w.idleFd
  { close w w.acceptSocket with phase := .destroyed }

inductive Action
  | listen
  | accept (r : Outcome) (logged : Option Errno)
  | deliver
  | closeIdle
  | acceptIdle (r : Outcome)
  | closeAccepted
  | reopen
  | destroy
  /-- A connection comes. -/
  | arrive (conn : Nat)
  /-- Another part of the process opens a descriptor, if there is one left. -/
  | openOther
  /-- Another part closes one of its own. -/
  | closeOther (fd : Nat)
  deriving DecidableEq, Repr

def openOther (w : World) : World :=
  match w.table.lowest with
  | some fd => { w with table := w.table.assign fd .other }
  | none => w

def step (w : World) : Action → Option World
  | .listen => if w.phase = .idle then some { w with listenning := true } else none
  | .accept r logged =>
    if w.phase = .idle ∧ w.listenning then some (accept w r logged) else none
  | .deliver =>
    match w.phase with
    | .accepted connfd conn => some (deliver w connfd conn)
    | _ => none
  | .closeIdle => if w.phase = .full then some (closeIdle w) else none
  | .acceptIdle r => if w.phase = .freed then some (acceptIdle w r) else none
  | .closeAccepted =>
    match w.phase with
    | .drained conn => some (closeAccepted w conn)
    | _ => none
  | .reopen => if w.phase = .closed then some (reopen w) else none
  | .destroy => if w.phase = .idle then some (destroy w) else none
  | .arrive conn =>
    if w.listenning ∧ w.phase ≠ .destroyed then
      some { w with backlog := w.backlog ++ [conn], arrived := w.arrived ++ [conn] }
    else none
  | .openOther => some (openOther w)
  | .closeOther fd =>
    if w.table.owner fd = some .other then some { w with table := w.table.close fd } else none

/-! ## What the calls do -/

variable {w w' : World}

/-- A connection is handed on when `accept4` has returned one. -/
theorem step_deliver (hstep : step w .deliver = some w') :
    ∃ connfd conn, w.phase = .accepted connfd conn ∧ deliver w connfd conn = w' := by
  cases hphase : w.phase with
  | accepted connfd conn =>
      simp only [step, hphase] at hstep
      exact ⟨connfd, conn, rfl, Option.some.inj hstep⟩
  | _ => simp [step, hphase] at hstep

theorem step_closeAccepted (hstep : step w .closeAccepted = some w') :
    ∃ conn, w.phase = .drained conn ∧ closeAccepted w conn = w' := by
  cases hphase : w.phase with
  | drained conn =>
      simp only [step, hphase] at hstep
      exact ⟨conn, rfl, Option.some.inj hstep⟩
  | _ => simp [step, hphase] at hstep

theorem openFd_cases (w : World) :
    (w.table.lowest = none ∧ openFd w = (w, -1)) ∨
    ∃ fd : Nat, w.table.lowest = some fd ∧
      openFd w = ({ w with table := w.table.assign fd .acceptor }, (fd : Int)) := by
  unfold openFd
  cases hlow : w.table.lowest with
  | none => exact .inl ⟨rfl, rfl⟩
  | some fd => exact .inr ⟨fd, rfl, rfl⟩

/-- `accept4` fails and does nothing, loses a connection, or takes one. -/
theorem accept4_cases (w : World) (r : Outcome) :
    (∃ errno, accept4 w r = (w, .error errno) ∧ (errno = .EMFILE ↔ w.table.lowest = none) ∧
      (w.table.lowest = none ∨ r = .interrupted ∨ w.backlog = [])) ∨
    (∃ conn backlog, w.backlog = conn :: backlog ∧ w.table.lowest ≠ none ∧
      accept4 w r = ({ w with backlog := backlog, gone := w.gone ++ [(conn, .aborted)] },
        .error .ECONNABORTED)) ∨
    ∃ fd conn backlog, w.table.lowest = some fd ∧ w.backlog = conn :: backlog ∧
      accept4 w r = ({ w with table := w.table.assign fd .acceptor, backlog := backlog },
        .ok (fd, conn)) := by
  unfold accept4
  cases hlow : w.table.lowest with
  | none => exact .inl ⟨.EMFILE, rfl, by simp, .inl rfl⟩
  | some fd =>
      cases hbacklog : w.backlog with
      | nil =>
          cases r with
          | ready => exact .inl ⟨.EAGAIN, rfl, by simp, .inr (.inr rfl)⟩
          | aborted => exact .inl ⟨.EAGAIN, rfl, by simp, .inr (.inr rfl)⟩
          | interrupted => exact .inl ⟨.EINTR, rfl, by simp, .inr (.inr rfl)⟩
      | cons conn backlog =>
          cases r with
          | ready => exact .inr (.inr ⟨fd, conn, backlog, rfl, rfl, rfl⟩)
          | aborted => exact .inr (.inl ⟨conn, backlog, rfl, by simp, rfl⟩)
          | interrupted => exact .inl ⟨.EINTR, rfl, by simp, .inr (.inl rfl)⟩

end Acceptor
end Youth.Net
