/-
  Youth.Net.Epoll.Basic

  Channels and the epoll bookkeeping of `youth/net/Channel.cpp`,
  `youth/net/Channel.h` and `youth/net/Epoll.cpp`.

  A channel's `m_index` says what the poller knows of it; `m_channelMap` maps a
  descriptor to its channel, and the kernel keeps the interest set.  Channels are
  named by their address, which is what the map and `epoll_event.data.ptr` hold.
  `epoll_ctl` fails for a descriptor already present (`ADD`) or absent (`MOD`,
  `DEL`); a failed `ADD` or `MOD` is a `LOG_FATAL`, which ends the process.

  Left out: the callbacks (the handlers are given where they are used; `m_revents` is
  an argument there), `m_eventHandling`, `m_addedToLoop` (read by the destructor's
  assertions only) and the log lines.
-/

import Youth.Lib.Checked
import Mathlib.Logic.Function.Basic

namespace Youth.Net

open Youth.Lib

/-- `m_events`: the bits of `kReadEvent` and of `kWriteEvent`. -/
structure Events where
  read : Bool
  write : Bool
  deriving DecidableEq, Repr

def kNoneEvent : Events := ⟨false, false⟩

/-- The bits of `m_revents`. -/
structure Revents where
  epollin : Bool := false
  epollpri : Bool := false
  epollrdhup : Bool := false
  epollout : Bool := false
  epollerr : Bool := false
  epollhup : Bool := false
  pollnval : Bool := false
  deriving DecidableEq, Repr

/-- Threads; `0` is the thread of the loop that owns the channel. -/
abbrev ThreadId := Nat

def loopThread : ThreadId := 0

/-- `m_index`. -/
inductive Index
  | kNew
  | kAdded
  | kDeleted
  deriving DecidableEq, Repr

structure Channel where
  self : Nat
  fd : Nat
  events : Events := kNoneEvent
  index : Index := .kNew
  deriving DecidableEq, Repr

/-- The poller: `m_channelMap`, the kernel's interest set (events and `data.ptr` of
    each descriptor) and whether a `LOG_FATAL` has ended the process. -/
structure Epoll where
  channelMap : Nat → Option Nat
  kernel : Nat → Option (Events × Nat)
  fatal : Bool := false

namespace Channel

def isWriting (ch : Channel) : Bool := ch.events.write

def isReading (ch : Channel) : Bool := ch.events.read

def isNoneEvent (ch : Channel) : Bool := ch.events = kNoneEvent

end Channel

namespace Epoll

/-- The assertions of `Epoll.cpp` and `Channel::remove`. -/
inductive Assert
  | updateNewAbsent
  | updateDeletedSame
  | updateAddedSame
  | removeSame
  | removeNoneEvent
  | removeIndex
  deriving DecidableEq, Repr

/-- The operations of `epoll_ctl`. -/
inductive Operation
  | add
  | mod
  | del
  deriving DecidableEq, Repr

/-- The empty poller. -/
def empty : Epoll := { channelMap := fun _ => none, kernel := fun _ => none }

/-- `epoll_ctl(m_epollfd, operation, fd, &event)`; `none` when it fails. -/
def epollCtl (kernel : Nat → Option (Events × Nat)) (operation : Operation) (fd : Nat)
    (event : Events × Nat) : Option (Nat → Option (Events × Nat)) :=
  match operation, kernel fd with
  | .add, none => some (Function.update kernel fd (some event))
  | .mod, some _ => some (Function.update kernel fd (some event))
  | .del, some _ => some (Function.update kernel fd none)
  | _, _ => none

/-- `Epoll::update`. -/
def update (ep : Epoll) (operation : Operation) (channel : Channel) : Epoll :=
  match epollCtl ep.kernel operation channel.fd (channel.events, channel.self) with
  | some kernel => { ep with kernel := kernel }
  | none => if operation = .del then ep else { ep with fatal := true }

def updateChannel (ep : Epoll) (channel : Channel) : Checked Assert (Channel × Epoll) :=
  match channel.index with
  | .kNew => do
    Checked.check (ep.channelMap channel.fd = none) .updateNewAbsent
    let ep := { ep with channelMap := Function.update ep.channelMap channel.fd (some channel.self) }
    pure ({ channel with index := .kAdded }, ep.update .add channel)
  | .kDeleted => do
    Checked.check (ep.channelMap channel.fd = some channel.self) .updateDeletedSame
    pure ({ channel with index := .kAdded }, ep.update .add channel)
  | .kAdded => do
    Checked.check (ep.channelMap channel.fd = some channel.self) .updateAddedSame
    if channel.isNoneEvent then
      pure ({ channel with index := .kDeleted }, ep.update .del channel)
    else
      pure (channel, ep.update .mod channel)

def removeChannel (ep : Epoll) (channel : Channel) : Checked Assert (Channel × Epoll) := do
  Checked.check (ep.channelMap channel.fd = some channel.self) .removeSame
  Checked.check (channel.isNoneEvent = true) .removeNoneEvent
  Checked.check (channel.index ≠ .kNew) .removeIndex
  let ep := { ep with channelMap := Function.update ep.channelMap channel.fd none }
  let ep := if channel.index = .kAdded then ep.update .del channel else ep
  pure ({ channel with index := .kNew }, ep)

end Epoll

namespace Channel

/-- An operation of a channel on itself and on its loop's poller. -/
abbrev Op := Channel → Epoll → Checked Epoll.Assert (Channel × Epoll)

/-- `m_events = events; update();`. -/
def setEvents (events : Channel → Events) : Op := fun ch ep =>
  ep.updateChannel { ch with events := events ch }

def enableReading : Op := setEvents fun ch => { ch.events with read := true }

def disableReading : Op := setEvents fun ch => { ch.events with read := false }

def enableWriting : Op := setEvents fun ch => { ch.events with write := true }

def disableWriting : Op := setEvents fun ch => { ch.events with write := false }

def disableAll : Op := setEvents fun _ => kNoneEvent

def remove : Op := fun ch ep => do
  Checked.check (ch.isNoneEvent = true) .removeNoneEvent
  ep.removeChannel ch

end Channel
end Youth.Net
