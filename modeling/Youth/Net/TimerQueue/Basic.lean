/-
  Youth.Net.TimerQueue.Basic

  The timer queue of `youth/net/TimerQueue.cpp` and the timers of `youth/net/Timer.cpp`.

  Timers are raw pointers, so they live in an explicit heap: an address holds a timer
  from its `new` to its `delete`, and may then be given out again.  `handleRead` is cut
  at the calls of user code: it takes the expired batch, runs the callbacks one by one
  (each may add and cancel timers in between) and at the end resets the batch.  Every
  failed assertion, every use of a freed timer and every second `delete` is kept in
  `faults`.

  `std::set` is a `Finset`, iterated in its order.  `m_interval` is a `double`; here it is
  a rational, cut to whole seconds where the source passes it as an `int64_t`
  (`truncate`).  The fields `armedAt`, `given`, `born`, `runs` and `deleted` are ghosts.
  Left out: the log lines, the channel, and the queue's own construction and destruction.
-/

import Mathlib.Data.Finset.Card
import Mathlib.Data.List.Sort
import Mathlib.Data.Prod.Lex
import Mathlib.Data.Rat.Floor
import Youth.Core.DateTime

namespace Youth.Net
namespace TimerQueue

open Youth.Core (DateTime int64)

abbrev Addr := Nat

def nullptr : Addr := 0

def UINTPTR_MAX : Nat := 2 ^ 64 - 1

structure Timer where
  expiration : DateTime
  interval : ℚ
  repeat_ : Bool
  sequence : Int
  deriving DecidableEq, Repr

/-- `Timer::Timer`. -/
def Timer.new (when_ : DateTime) (interval : ℚ) (sequence : Int) : Timer where
  expiration := when_
  interval := interval
  repeat_ := decide (0 < interval)
  sequence := sequence

/-- A `double` passed as an `int64_t`: cut towards zero; what does not fit becomes the
    smallest value (`cvttsd2si`). -/
def truncate (x : ℚ) : Int :=
  let n := if 0 ≤ x then x.floor else -(-x).floor
  if -0x8000000000000000 ≤ n ∧ n < 0x8000000000000000 then n else -0x8000000000000000

/-- `DateTime::addSeconds` of a `double`. -/
def addSeconds (now : DateTime) (seconds : ℚ) : DateTime :=
  DateTime.addSeconds now (truncate seconds)

/-- `Timer::restart`. -/
def Timer.restart (t : Timer) (now : DateTime) : Timer :=
  { t with expiration := if t.repeat_ then addSeconds now t.interval else 0 }

/-- `howMuchTimeFromNow`, in microseconds. -/
def howMuchTimeFromNow (when_ clock : DateTime) : Int := max 100 (int64 (when_ - clock))

/-- `std::pair<DateTime, Timer *>`, in the order of the set. -/
abbrev Entry := DateTime ×ₗ Addr

/-- `std::pair<Timer *, int64_t>`. -/
abbrev ActiveTimer := Addr × Int

inductive Fault
  | useAfterFree (a : Addr)
  | doubleFree (a : Addr)
  | sizes
  | eraseTimers
  | eraseActive
  | insertTimers
  | insertActive
  | lowerBound
  deriving DecidableEq, Repr

/-- `handleRead` between two callbacks: its batch, and what is still to run. -/
structure Firing where
  now : DateTime
  expired : List Entry
  todo : List Entry
  deriving DecidableEq

structure World where
  timers : Finset Entry := ∅
  activeTimers : Finset ActiveTimer := ∅
  callingExpiredTimers : Bool := false
  cancelingTimers : Finset ActiveTimer := ∅
  heap : Addr → Option Timer := fun _ => none
  numCreated : Int := 0
  firing : Option Firing := none
  /-- The deadline the timerfd is armed for. -/
  timerfd : Option DateTime := none
  /-- Ghost: the time of the last `resetTimerfd`. -/
  armedAt : DateTime := 0
  faults : List Fault := []
  /-- Ghost: the timers given to `addTimerInLoop`, by sequence. -/
  given : List Int := []
  /-- Ghost: the timer made with a sequence number. -/
  born : Int → Option Timer := fun _ => none
  /-- Ghost: the callbacks run, by sequence. -/
  runs : List Int := []
  /-- Ghost: the timers deleted, by sequence. -/
  deleted : List Int := []

namespace World

def check (w : World) (p : Prop) [Decidable p] (f : Fault) : World :=
  { w with faults := w.faults ++ if p then [] else [f] }

/-- A use of the timer at `a`. -/
def touch (w : World) (a : Addr) : World := w.check ((w.heap a).isSome = true) (.useAfterFree a)

/-- What the memory at `a` holds (anything, once freed). -/
def timer (w : World) (a : Addr) : Timer := (w.heap a).getD (Timer.new 0 0 0)

/-- `delete`. -/
def delete (w : World) (a : Addr) : World :=
  let w := w.check ((w.heap a).isSome = true) (.doubleFree a)
  { w with heap := Function.update w.heap a none, deleted := w.deleted ++ [(w.timer a).sequence] }

def checkSizes (w : World) : World := w.check (w.timers.card = w.activeTimers.card) .sizes

/-- `resetTimerfd`, at the time `clock`. -/
def resetTimerfd (w : World) (expiration clock : DateTime) : World :=
  { w with timerfd := some (clock + howMuchTimeFromNow expiration clock), armedAt := clock }

end World

open World

/-! ## The two sets -/

/-- `TimerQueue::insert`; the flag says whether the earliest expiration changed. -/
def insert (w : World) (a : Addr) : World × Bool :=
  let w := w.checkSizes.touch a
  let t := w.timer a
  let earliestChanged : Bool := decide (∀ x ∈ w.timers, t.expiration < (ofLex x).1)
  let w := w.check (toLex (t.expiration, a) ∉ w.timers) .insertTimers
  let w := { w with timers := Insert.insert (toLex (t.expiration, a)) w.timers }
  let w := w.check ((a, t.sequence) ∉ w.activeTimers) .insertActive
  let w := { w with activeTimers := Insert.insert (a, t.sequence) w.activeTimers }
  (w.checkSizes, earliestChanged)

def addTimerInLoop (w : World) (a : Addr) (clock : DateTime) : World :=
  let t := w.timer a
  let r := insert { w with given := w.given ++ [t.sequence] } a
  if r.2 then (r.1.touch a).resetTimerfd (r.1.timer a).expiration clock else r.1

/-- The branch of `cancelInLoop` for an active timer. -/
def cancelActive (w : World) (id : ActiveTimer) : World :=
  let w := w.touch id.1
  let entry : Entry := toLex ((w.timer id.1).expiration, id.1)
  let w := w.check (entry ∈ w.timers) .eraseTimers
  let w := { w with timers := w.timers.erase entry }
  let w := w.delete id.1
  { w with activeTimers := w.activeTimers.erase id }

def cancelInLoop (w : World) (id : ActiveTimer) : World :=
  let w := w.checkSizes
  let w :=
    if id ∈ w.activeTimers then cancelActive w id
    else if w.callingExpiredTimers then
      { w with cancelingTimers := Insert.insert id w.cancelingTimers }
    else w
  w.checkSizes

/-! ## Firing -/

/-- `m_activeTimers.erase(timer)` for one entry of the batch. -/
def eraseActive (w : World) (x : Entry) : World :=
  let a := (ofLex x).2
  let w := w.touch a
  let active : ActiveTimer := (a, (w.timer a).sequence)
  let w := w.check (active ∈ w.activeTimers) .eraseActive
  { w with activeTimers := w.activeTimers.erase active }

/-- The elements of a set in the order of its iterators. -/
def inOrder (s : Finset Entry) : List Entry :=
  Quot.liftOn s.1 (List.insertionSort (· ≤ ·)) fun l l' h =>
    List.Perm.eq_of_sortedLE l.sortedLE_insertionSort l'.sortedLE_insertionSort
      (((List.perm_insertionSort _ l).trans h).trans (List.perm_insertionSort _ l').symm)

/-- The range from `begin()` to `lower_bound(sentry)`. -/
def below (timers : Finset Entry) (sentry : Entry) : List Entry :=
  inOrder (timers.filter (· < sentry))

/-- `getExpired`: everything below `(now, UINTPTR_MAX)` leaves both sets. -/
def getExpired (w : World) (now : DateTime) : World × List Entry :=
  let w := w.checkSizes
  let sentry : Entry := toLex (now, UINTPTR_MAX)
  let w := w.check (∀ x ∈ w.timers, ¬x < sentry → now < (ofLex x).1) .lowerBound
  let expired := below w.timers sentry
  let w := { w with timers := w.timers.filter (¬· < sentry) }
  ((expired.foldl eraseActive w).checkSizes, expired)

/-- `handleRead`, up to the first callback; `clock` is the time of its `read`. -/
def handleRead (w : World) (now clock : DateTime) : World :=
  let w := { w with timerfd := w.timerfd.filter (clock < ·) }
  let r := getExpired w now
  { r.1 with
    callingExpiredTimers := true
    cancelingTimers := ∅
    firing := some { now := now, expired := r.2, todo := r.2 } }

/-- `it.second->run()`. -/
def runTimer (w : World) (a : Addr) : World :=
  let w := w.touch a
  { w with runs := w.runs ++ [(w.timer a).sequence] }

/-- One entry of the batch in `reset`. -/
def resetTimer (now : DateTime) (w : World) (x : Entry) : World :=
  let a := (ofLex x).2
  let w := w.touch a
  let t := w.timer a
  if t.repeat_ ∧ (a, t.sequence) ∉ w.cancelingTimers then
    (insert { w with heap := Function.update w.heap a (some (t.restart now)) } a).1
  else w.delete a

/-- The end of `reset`: the timerfd is set for the first timer. -/
def armNext (w : World) (clock : DateTime) : World :=
  match (inOrder w.timers).head? with
  | none => w
  | some x =>
    let w := w.touch (ofLex x).2
    let nextExpire := (w.timer (ofLex x).2).expiration
    if 0 < nextExpire then w.resetTimerfd nextExpire clock else w

def reset (w : World) (expired : List Entry) (now clock : DateTime) : World :=
  armNext (expired.foldl (resetTimer now) w) clock

/-! ## The machine -/

inductive Action
  /-- `new Timer` at a free address, in any thread. -/
  | newTimer (a : Addr) (when_ : DateTime) (interval : ℚ)
  /-- A timer of another loop takes a sequence number. -/
  | otherTimer
  | addTimerInLoop (a : Addr) (clock : DateTime)
  | cancelInLoop (id : ActiveTimer)
  | handleRead (now clock : DateTime)
  /-- The next callback of the batch. -/
  | runNext
  /-- The callbacks are through: `reset`. -/
  | finishRead (clock : DateTime)
  deriving DecidableEq, Repr

/-- `addTimer` hands each timer it has made to `addTimerInLoop` once. -/
def World.awaiting (w : World) (a : Addr) : Bool :=
  (w.heap a).any fun t => t.sequence ∉ w.given

def step (w : World) (a : Action) : Option World :=
  match a with
  | .newTimer a when_ interval =>
    if w.heap a = none ∧ a ≠ nullptr ∧ a < UINTPTR_MAX then
      let t := Timer.new when_ interval w.numCreated
      some { w with
        heap := Function.update w.heap a (some t)
        born := Function.update w.born w.numCreated (some t)
        numCreated := w.numCreated + 1 }
    else none
  | .otherTimer => some { w with numCreated := w.numCreated + 1 }
  | .addTimerInLoop a clock => if w.awaiting a then some (addTimerInLoop w a clock) else none
  | .cancelInLoop id => some (cancelInLoop w id)
  | .handleRead now clock => if w.firing = none then some (handleRead w now clock) else none
  | .runNext =>
    match w.firing with
    | some { now := now, expired := expired, todo := x :: todo } =>
      some { runTimer w (ofLex x).2 with
        firing := some { now := now, expired := expired, todo := todo } }
    | _ => none
  | .finishRead clock =>
    match w.firing with
    | some { now := now, expired := expired, todo := [] } =>
      let w := { w with callingExpiredTimers := false, firing := none }
      some (reset w expired now clock)
    | _ => none

end TimerQueue
end Youth.Net
