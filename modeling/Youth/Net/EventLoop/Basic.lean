/-
  Youth.Net.EventLoop.Basic

  The functor queue of `youth/net/EventLoop.cpp`: `loop`, `queueInLoop`, `runInLoop`,
  `wakeup`, `handleRead` and `doPendingFunctors`, for any kind of functor.

  A step is one access to what the threads share (the queue under its mutex, the eventfd,
  `m_quit`), so the steps of different threads may come in any order.  `Phase` says where
  the loop thread is between two of them.  What the handlers and the functors call is up
  to the user: it comes as steps of the loop thread while one of them is running.

  The eventfd is a counter: a write adds to it, a read empties it, and `epoll_wait`
  reports it only while it is positive.  The fields `ran` and `queued` are ghosts.  Left
  out: the log lines, the other channels' events, `m_looping` and `m_eventHandling` (read
  by assertions only) and the failures of the eventfd, which are logged.
-/

import Youth.Net.Epoll.Basic

namespace Youth.Net
namespace EventLoop

/-- An entry of `m_activeChannels`. -/
inductive Active
  /-- `m_wakeupChannelPtr`, whose read callback is `handleRead`. -/
  | wakeup
  | other
  deriving DecidableEq, Repr

/-- Where the loop thread is. -/
inductive Phase (φ : Type)
  /-- Not in `loop()`. -/
  | idle
  /-- In front of `while (!m_quit)`. -/
  | test
  /-- About to block in `epoll_wait`. -/
  | poll
  /-- In the loop over the active channels, the first of which is being handled. -/
  | handling (active : List Active)
  /-- In `doPendingFunctors`, before the swap. -/
  | pending
  /-- In `doPendingFunctors`: the functor being run, if any, and the rest of the batch. -/
  | calling (current : Option φ) (functors : List φ)
  deriving DecidableEq, Repr

structure World (φ : Type) where
  phase : Phase φ := .idle
  quit : Bool := false
  callingPendingFunctors : Bool := false
  pendingFunctors : List φ := []
  /-- The threads that have left the critical section of `queueInLoop` and are on their
      way to `wakeup()`. -/
  waking : List ThreadId := []
  /-- The counter behind `m_wakeupFd`. -/
  eventfd : Nat := 0
  /-- Ghost: the functors run, the running one included. -/
  ran : List φ := []
  /-- Ghost: the functors queued, in push order. -/
  queued : List φ := []

variable {φ : Type}

/-- `queueInLoop`, up to the `wakeup()` at its end. -/
def queueInLoop (s : World φ) (tid : ThreadId) (cb : φ) : World φ :=
  let s := { s with pendingFunctors := s.pendingFunctors ++ [cb], queued := s.queued ++ [cb] }
  if tid ≠ loopThread ∨ s.callingPendingFunctors then { s with waking := s.waking ++ [tid] } else s

/-- `runInLoop`; in the loop thread `cb` is run within the caller, as part of it. -/
def runInLoop (s : World φ) (tid : ThreadId) (cb : φ) : World φ :=
  if tid = loopThread then s else queueInLoop s tid cb

def wakeup (s : World φ) (tid : ThreadId) : World φ :=
  { s with waking := s.waking.erase tid, eventfd := s.eventfd + 1 }

def handleRead (s : World φ) : World φ := { s with eventfd := 0 }

/-- The handler of one active channel, less what the user's handlers call. -/
def handleEvent (s : World φ) : Active → World φ
  | .wakeup => handleRead s
  | .other => s

/-- User code is running in the loop thread. -/
def World.inUserCode (s : World φ) : Bool :=
  match s.phase with
  | .handling (.other :: _) => true
  | .calling (some _) _ => true
  | _ => false

/-! ## The machine -/

inductive Action (φ : Type)
  /-- `loop()` is called. -/
  | loop
  | queueInLoop (tid : ThreadId) (cb : φ)
  | runInLoop (tid : ThreadId) (cb : φ)
  /-- The `wakeup()` at the end of a `queueInLoop`. -/
  | wakeup (tid : ThreadId)
  /-- `quit()`, in any thread. -/
  | quit
  /-- The test of `m_quit`. -/
  | testQuit
  /-- `epoll_wait` returns. -/
  | poll (active : List Active)
  /-- The handler of the first active channel returns. -/
  | handleEvent
  /-- The active channels are through; `m_callingPendingFunctors = true`. -/
  | doPendingFunctors
  | swap
  /-- The next functor is called (and the one before has returned). -/
  | runFunctor
  /-- The batch is through; `m_callingPendingFunctors = false`. -/
  | endPendingFunctors
  deriving DecidableEq, Repr

/-- Whether the thread `tid` may enter `queueInLoop` or `runInLoop`: it is not inside it
    already, and the loop thread is in a handler or in a functor. -/
def World.mayCall (s : World φ) (tid : ThreadId) : Bool :=
  tid ∉ s.waking ∧ (tid = loopThread → s.inUserCode = true)

/-- The next step of the loop thread itself. -/
def loopStep (s : World φ) (a : Action φ) : Option (World φ) :=
  match a, s.phase with
  | .loop, .idle => some { s with quit := false, phase := .test }
  | .testQuit, .test => some { s with phase := if s.quit then .idle else .poll }
  | .poll active, .poll =>
    if .wakeup ∈ active → 0 < s.eventfd then some { s with phase := .handling active } else none
  | .handleEvent, .handling (c :: cs) => some { handleEvent s c with phase := .handling cs }
  | .doPendingFunctors, .handling [] =>
    some { s with callingPendingFunctors := true, phase := .pending }
  | .swap, .pending =>
    some { s with pendingFunctors := [], phase := .calling none s.pendingFunctors }
  | .runFunctor, .calling _ (f :: fs) =>
    some { s with ran := s.ran ++ [f], phase := .calling (some f) fs }
  | .endPendingFunctors, .calling _ [] =>
    some { s with callingPendingFunctors := false, phase := .test }
  | _, _ => none

def step (s : World φ) (a : Action φ) : Option (World φ) :=
  match a with
  | .queueInLoop tid cb => if s.mayCall tid then some (queueInLoop s tid cb) else none
  | .runInLoop tid cb => if s.mayCall tid then some (runInLoop s tid cb) else none
  | .wakeup tid => if tid ∈ s.waking then some (wakeup s tid) else none
  | .quit => some { s with quit := true }
  -- the loop thread goes on once it is out of `queueInLoop`
  | a => if loopThread ∈ s.waking then none else loopStep s a

end EventLoop
end Youth.Net
