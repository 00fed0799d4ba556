/-
  Youth.Utils.ThreadPool.Basic

  The worker pool of `youth/utils/ThreadPool.cpp` and `youth/utils/ThreadPool.h`, as
  a machine that takes one critical section at a time.

  Workers are alike, so the state counts them by where they are: at the test of
  `m_running` in `threadFunc`, inside `take()` and on their way to the mutex (just
  entered or woken), waiting on `m_notEmpty`, running a task, or ended.  A thread
  inside `run()` is told apart by the task it brings: it is on its way to the mutex, or
  waits on `m_notFull`.  `notify_one` wakes any one of those that wait and is lost when
  nobody does; a wait may also end by itself.  `stop()` is called once.

  Left out: the names of the threads, `m_threadInitCallback`, and the assertion at the
  head of `threadFunc`, which fails in a debug build for a worker that starts after
  `stop()` (here it goes on to the test, as without assertions).  `m_queue.clear()` is
  outside the mutex in the source and one step here.
-/

import Youth.Lib.Machine

namespace Youth.Utils

open Youth.Lib

/-- A `std::function<void()>`; `none` is the empty one. -/
abbrev Task (τ : Type) := Option τ

/-- Where `stop()` is. -/
inductive StopPhase
  | notCalled
  | joining
  | returned
  deriving DecidableEq, Repr

structure ThreadPool (τ : Type) where
  maxTaskNum : Nat
  /-- `m_threadVec.size()`. -/
  numThreads : Nat
  running : Bool := true
  queue : List (Task τ) := []
  /-- Workers at `while (m_running)`. -/
  testing : Nat
  /-- Workers inside `take()` that do not wait. -/
  taking : Nat := 0
  /-- Workers that wait on `m_notEmpty`. -/
  notEmpty : Nat := 0
  executing : List τ := []
  ended : Nat := 0
  /-- Threads inside `run()` that do not wait, by the task they bring. -/
  entering : List (Task τ) := []
  /-- Threads that wait on `m_notFull`. -/
  notFull : List (Task τ) := []
  /-- Tasks that `run()` itself executes, when there are no workers. -/
  inline : List τ := []
  stopping : StopPhase := .notCalled
  -- What has happened so far
  pushed : List (Task τ) := []
  taken : List (Task τ) := []
  cleared : List (Task τ) := []
  finished : List τ := []
  deriving DecidableEq

namespace ThreadPool

variable {τ : Type}

/-- `setTaskNum(maxTaskNum)` and `start(numThreads)`. -/
def start (numThreads maxTaskNum : Nat) : ThreadPool τ :=
  { maxTaskNum := maxTaskNum, numThreads := numThreads, testing := numThreads }

def isFull (s : ThreadPool τ) : Bool := 0 < s.maxTaskNum && s.maxTaskNum ≤ s.queue.length

/-- The steps of the threads around a pool. -/
inductive Act (τ : Type)
  /-- A thread calls `run(task)`. -/
  | call (task : Task τ)
  /-- A thread inside `run()` has the mutex: it waits or pushes. -/
  | lockRun (k : Nat)
  | wakeRun (k : Nat)
  /-- The task that a thread executes inside `run()` returns. -/
  | finishInline (k : Nat)
  /-- A worker tests `m_running`. -/
  | test
  /-- A worker inside `take()` has the mutex: it waits or leaves, and wakes the `k`th of
      those that wait on `m_notFull`. -/
  | lockTake (k : Nat)
  | wakeTake
  /-- The task of a worker returns. -/
  | finish (k : Nat)
  /-- The first part of `stop()`, under the mutex. -/
  | stop
  /-- The last worker is joined and `stop()` returns. -/
  | join
  deriving DecidableEq

/-- `m_notEmpty.notify_one()`: one of the waiting workers, if there is one, is woken. -/
def notifyNotEmpty (s : ThreadPool τ) : ThreadPool τ :=
  { s with notEmpty := s.notEmpty - 1, taking := s.taking + min s.notEmpty 1 }

/-- `m_notFull.notify_one()`, with the choice of the thread. -/
def notifyNotFull (s : ThreadPool τ) (k : Nat) : Option (ThreadPool τ) :=
  match s.notFull[k]? with
  | some task =>
    some { s with notFull := s.notFull.eraseIdx k, entering := s.entering ++ [task] }
  | none => if s.notFull = [] then some s else none

/-- `if (task) task();` and back to the test of `m_running`. -/
def execute (s : ThreadPool τ) : Task τ → ThreadPool τ
  | some t => { s with executing := s.executing ++ [t] }
  | none => { s with testing := s.testing + 1 }

/-- `run()` with the mutex: the loop on `isFull()`, then the push. -/
def lockRun (s : ThreadPool τ) (k : Nat) : Option (ThreadPool τ) :=
  match s.entering[k]? with
  | none => none
  | some task =>
    let s := { s with entering := s.entering.eraseIdx k }
    -- the loop looks at the queue only, not at `m_running`
    if s.isFull then some { s with notFull := s.notFull ++ [task] }
    else some { s with queue := s.queue ++ [task], pushed := s.pushed ++ [task] }.notifyNotEmpty

/-- `take()` with the mutex: the loop on `m_queue.empty() && m_running`, then the pop. -/
def lockTake (s : ThreadPool τ) (k : Nat) : Option (ThreadPool τ) :=
  if s.taking = 0 then none
  else
    let s := { s with taking := s.taking - 1 }
    match s.queue with
    -- woken by `stop()`, `take()` returns an empty task
    | [] => some (if s.running then { s with notEmpty := s.notEmpty + 1 } else s.execute none)
    | task :: rest =>
      let s := { s with queue := rest, taken := s.taken ++ [task] }
      if 0 < s.maxTaskNum then (s.notifyNotFull k).map (·.execute task)
      else some (s.execute task)

def step (s : ThreadPool τ) : Act τ → Option (ThreadPool τ)
  | .call task =>
    if s.numThreads = 0 then
      -- an empty function throws here
      task.map fun t => { s with inline := s.inline ++ [t] }
    else some { s with entering := s.entering ++ [task] }
  | .lockRun k => s.lockRun k
  | .wakeRun k =>
    match s.notFull[k]? with
    | none => none
    | some task =>
      some { s with notFull := s.notFull.eraseIdx k, entering := s.entering ++ [task] }
  | .finishInline k =>
    match s.inline[k]? with
    | none => none
    | some t => some { s with inline := s.inline.eraseIdx k, finished := s.finished ++ [t] }
  | .test =>
    if s.testing = 0 then none
    else
      let s := { s with testing := s.testing - 1 }
      some (if s.running then { s with taking := s.taking + 1 } else { s with ended := s.ended + 1 })
  | .lockTake k => s.lockTake k
  | .wakeTake =>
    if s.notEmpty = 0 then none
    else some { s with notEmpty := s.notEmpty - 1, taking := s.taking + 1 }
  | .finish k =>
    match s.executing[k]? with
    | none => none
    | some t =>
      some
        { s with
          executing := s.executing.eraseIdx k
          finished := s.finished ++ [t]
          testing := s.testing + 1 }
  | .stop =>
    if s.stopping = .notCalled then
      -- `notify_all` on both conditions: everybody goes back to the mutex
      some
        { s with
          running := false
          taking := s.taking + s.notEmpty
          notEmpty := 0
          entering := s.entering ++ s.notFull
          notFull := []
          stopping := .joining }
    else none
  | .join =>
    if s.stopping = .joining ∧ s.ended = s.numThreads then
      -- tasks that no worker has taken are dropped
      some { s with queue := [], cleared := s.cleared ++ s.queue, stopping := .returned }
    else none

/-! ## What a step can do -/

/-- The steps, one constructor for each way through the code. -/
inductive Step (s : ThreadPool τ) : Act τ → ThreadPool τ → Prop
  | call (task : Task τ) (h : s.numThreads ≠ 0) :
      Step s (.call task) { s with entering := s.entering ++ [task] }
  | callInline (t : τ) (h : s.numThreads = 0) :
      Step s (.call (some t)) { s with inline := s.inline ++ [t] }
  | wait (k : Nat) (task : Task τ) (h : s.entering[k]? = some task) (hfull : s.isFull = true) :
      Step s (.lockRun k)
        { s with entering := s.entering.eraseIdx k, notFull := s.notFull ++ [task] }
  | push (k : Nat) (task : Task τ) (h : s.entering[k]? = some task) (hfull : s.isFull = false) :
      Step s (.lockRun k)
        { s with
          entering := s.entering.eraseIdx k
          queue := s.queue ++ [task]
          pushed := s.pushed ++ [task]
          notEmpty := s.notEmpty - 1
          taking := s.taking + min s.notEmpty 1 }
  | wakeRun (k : Nat) (task : Task τ) (h : s.notFull[k]? = some task) :
      Step s (.wakeRun k)
        { s with notFull := s.notFull.eraseIdx k, entering := s.entering ++ [task] }
  | finishInline (k : Nat) (t : τ) (h : s.inline[k]? = some t) :
      Step s (.finishInline k)
        { s with inline := s.inline.eraseIdx k, finished := s.finished ++ [t] }
  | testRunning (h : s.testing ≠ 0) (hrunning : s.running = true) :
      Step s .test { s with testing := s.testing - 1, taking := s.taking + 1 }
  | testStopped (h : s.testing ≠ 0) (hrunning : s.running = false) :
      Step s .test { s with testing := s.testing - 1, ended := s.ended + 1 }
  | takeWait (k : Nat) (h : s.taking ≠ 0) (hqueue : s.queue = []) (hrunning : s.running = true) :
      Step s (.lockTake k) { s with taking := s.taking - 1, notEmpty := s.notEmpty + 1 }
  | takeNothing (k : Nat) (h : s.taking ≠ 0) (hqueue : s.queue = [])
      (hrunning : s.running = false) :
      Step s (.lockTake k) { s with taking := s.taking - 1, testing := s.testing + 1 }
  | take (k : Nat) (task : Task τ) (rest : List (Task τ)) (h : s.taking ≠ 0)
      (hqueue : s.queue = task :: rest) (hnobody : s.maxTaskNum = 0 ∨ s.notFull = []) :
      Step s (.lockTake k)
        (execute { s with taking := s.taking - 1, queue := rest, taken := s.taken ++ [task] } task)
  | takeNotify (k : Nat) (task waiter : Task τ) (rest : List (Task τ)) (h : s.taking ≠ 0)
      (hqueue : s.queue = task :: rest) (hmax : 0 < s.maxTaskNum)
      (hwaiter : s.notFull[k]? = some waiter) :
      Step s (.lockTake k)
        (execute
          { s with
            taking := s.taking - 1
            queue := rest
            taken := s.taken ++ [task]
            notFull := s.notFull.eraseIdx k
            entering := s.entering ++ [waiter] } task)
  | wakeTake (h : s.notEmpty ≠ 0) :
      Step s .wakeTake { s with notEmpty := s.notEmpty - 1, taking := s.taking + 1 }
  | finish (k : Nat) (t : τ) (h : s.executing[k]? = some t) :
      Step s (.finish k)
        { s with
          executing := s.executing.eraseIdx k
          finished := s.finished ++ [t]
          testing := s.testing + 1 }
  | stop (h : s.stopping = .notCalled) :
      Step s .stop
        { s with
          running := false
          taking := s.taking + s.notEmpty
          notEmpty := 0
          entering := s.entering ++ s.notFull
          notFull := []
          stopping := .joining }
  | join (h : s.stopping = .joining) (hended : s.ended = s.numThreads) :
      Step s .join { s with queue := [], cleared := s.cleared ++ s.queue, stopping := .returned }

theorem lockRun_cases {s t : ThreadPool τ} {k : Nat} (h : s.lockRun k = some t) :
    Step s (.lockRun k) t := by
  unfold lockRun at h
  split at h
  · cases h
  · rename_i task htask
    cases hfull : s.isFull with
    | true =>
        have hfull' : isFull { s with entering := s.entering.eraseIdx k } = true := hfull
        simp only [hfull', if_true, Option.some.injEq] at h
        exact h ▸ .wait k task htask hfull
    | false =>
        have hfull' : isFull { s with entering := s.entering.eraseIdx k } = false := hfull
        simp only [hfull', Bool.false_eq_true, if_false, Option.some.injEq] at h
        exact h ▸ .push k task htask hfull

theorem lockTake_cases {s t : ThreadPool τ} {k : Nat} (h : s.lockTake k = some t) :
    Step s (.lockTake k) t := by
  unfold lockTake at h
  split at h
  · cases h
  · rename_i htaking
    dsimp only at h
    split at h
    · rename_i hqueue
      cases h
      split
      · rename_i hrunning
        exact .takeWait k htaking hqueue hrunning
      · rename_i hrunning
        exact .takeNothing k htaking hqueue (Bool.eq_false_iff.mpr hrunning)
    · rename_i task rest hqueue
      split at h
      · -- bounded: one of those that wait on `m_notFull` is woken, if there is one
        rename_i hmax
        obtain ⟨u, hu, rfl⟩ := Option.map_eq_some_iff.mp h
        unfold notifyNotFull at hu
        split at hu
        · rename_i waiter hwaiter
          cases hu
          exact .takeNotify k task waiter rest htaking hqueue hmax hwaiter
        · split at hu
          · rename_i hnobody
            cases hu
            exact .take k task rest htaking hqueue (.inr hnobody)
          · cases hu
      · rename_i hmax
        cases h
        exact .take k task rest htaking hqueue (.inl (Nat.eq_zero_of_not_pos hmax))

theorem step_cases {s t : ThreadPool τ} {a : Act τ} (h : s.step a = some t) : Step s a t := by
  cases a with
  | lockRun k => exact lockRun_cases h
  | lockTake k => exact lockTake_cases h
  | call task =>
      simp only [step] at h
      split at h
      · rename_i hzero
        obtain ⟨t', rfl, rfl⟩ := Option.map_eq_some_iff.mp h
        exact .callInline t' hzero
      · rename_i hpos
        cases h
        exact .call task hpos
  | wakeRun k =>
      simp only [step] at h
      split at h
      · cases h
      · rename_i task htask
        cases h
        exact .wakeRun k task htask
  | finishInline k =>
      simp only [step] at h
      split at h
      · cases h
      · rename_i t' ht
        cases h
        exact .finishInline k t' ht
  | test =>
      obtain ⟨htesting, ht⟩ := Option.ite_none_left_eq_some.mp h
      cases ht
      split
      · rename_i hrunning
        exact .testRunning htesting hrunning
      · rename_i hrunning
        exact .testStopped htesting (Bool.eq_false_iff.mpr hrunning)
  | wakeTake =>
      obtain ⟨hwaiting, ht⟩ := Option.ite_none_left_eq_some.mp h
      cases ht
      exact .wakeTake hwaiting
  | finish k =>
      simp only [step] at h
      split at h
      · cases h
      · rename_i t' ht
        cases h
        exact .finish k t' ht
  | stop =>
      obtain ⟨hphase, ht⟩ := Option.ite_none_right_eq_some.mp h
      cases ht
      exact .stop hphase
  | join =>
      obtain ⟨hphase, ht⟩ := Option.ite_none_right_eq_some.mp h
      cases ht
      exact .join hphase.1 hphase.2

end ThreadPool
end Youth.Utils
