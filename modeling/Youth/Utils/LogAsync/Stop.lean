/-
  Youth.Utils.LogAsync.Stop

  The log thread's loop and `stop()` of `youth/utils/LogAsync.cpp`, around the buffers of
  `Youth.Utils.LogAsync.Basic`.

  `m_running` is read and written without the mutex, so its test at the head of the loop
  and its clearing in `stop()` are steps of their own.  One condition variable carries
  two signals: `append` and `stop()` wake the log thread out of its timed wait, and the
  log thread wakes `stop()` when it leaves.  `notify_one` wakes one of those that wait, any
  one, and is lost when nobody does.  `stop()` has no predicate around its wait, so a last
  notification that comes before the wait leaves it asleep: `stop_not_deadlocked` says
  that this is exactly when it deadlocks.

  Left out: `start()` (the loop is running), the assertion at the head of `threadFunc`,
  the flushes and the lines on the console.
-/

import Youth.Utils.LogAsync.Intact

namespace Youth.Utils
namespace LogAsync

open Youth.Lib

/-- Where the log thread is in `threadFunc`. -/
inductive Place
  /-- At `while (m_running)`. -/
  | test
  /-- Past the test, in front of the mutex. -/
  | enter
  /-- In `m_cond.wait_for`. -/
  | waiting
  /-- Out of the wait, in front of the swap. -/
  | collect
  /-- After the swap. -/
  | write
  /-- Out of the loop, in front of the last `notify_one`. -/
  | leaving
  | ended
  deriving DecidableEq, Repr

/-- Where `stop()` is. -/
inductive StopPlace
  | notCalled
  /-- `m_running` is cleared. -/
  | cleared
  /-- The log thread has been notified. -/
  | notified
  /-- In `m_cond.wait`. -/
  | waiting
  /-- Out of the wait, in `m_thread.join()`. -/
  | joining
  | returned
  deriving DecidableEq, Repr

structure Logger where
  log : World := {}
  running : Bool := true
  thread : Place := .test
  stop : StopPlace := .notCalled

inductive Move
  /-- `append`, with the thread it wakes if both wait. -/
  | append (line : List UInt8) (toStop : Bool)
  -- The log thread
  | test
  | lock
  | timeout
  | collect
  | limit
  | write
  | recycle
  | lastNotify
  -- `stop()`
  | stop
  | notify
  | wait
  /-- The wait of `stop()` ends by itself. -/
  | wake
  | join
  deriving DecidableEq, Repr

namespace Logger

/-- `m_cond.notify_one()`. -/
def notifyOne (s : Logger) (toStop : Bool) : Logger :=
  if s.stop = .waiting ∧ (toStop = true ∨ s.thread ≠ .waiting) then { s with stop := .joining }
  else if s.thread = .waiting then { s with thread := .collect }
  else s

/-- A step of the log thread on the buffers. -/
def act (s : Logger) (a : Action) (next : Place) : Option Logger :=
  (LogAsync.step s.log a).map fun log => { s with log := log, thread := next }

def step (s : Logger) : Move → Option Logger
  | .append line toStop =>
    let t := { s with log := LogAsync.append s.log line }
    -- a line that fits the current buffer wakes nobody
    some (if s.log.currentBuffer.avail > line.length then t else t.notifyOne toStop)
  | .test =>
    if s.thread = .test then some { s with thread := if s.running then .enter else .leaving }
    else none
  | .lock =>
    if s.thread = .enter then
      -- an `if` and no loop: whatever ends the wait, the swap comes next
      if s.log.buffers.isEmpty then some { s with thread := .waiting } else s.act .swap .write
    else none
  | .timeout => if s.thread = .waiting then some { s with thread := .collect } else none
  | .collect => if s.thread = .collect then s.act .swap .write else none
  | .limit => if s.thread = .write then s.act .limit .write else none
  | .write => if s.thread = .write then s.act .write .write else none
  | .recycle => if s.thread = .write then s.act .recycle .test else none
  | .lastNotify =>
    if s.thread = .leaving then some (notifyOne { s with thread := .ended } true) else none
  | .stop =>
    if s.stop = .notCalled then some { s with running := false, stop := .cleared } else none
  | .notify =>
    if s.stop = .cleared then some (notifyOne { s with stop := .notified } false) else none
  -- no predicate: a notification that came before is not seen
  | .wait => if s.stop = .notified then some { s with stop := .waiting } else none
  | .wake => if s.stop = .waiting then some { s with stop := .joining } else none
  | .join =>
    if s.stop = .joining ∧ s.thread = .ended then some { s with stop := .returned } else none

/-- The steps, one constructor for each way through the code. -/
inductive Moves (s : Logger) : Move → Logger → Prop
  | append (line : List UInt8) (toStop : Bool) (hroom : s.log.currentBuffer.avail > line.length) :
      Moves s (.append line toStop) { s with log := LogAsync.append s.log line }
  | appendNotify (line : List UInt8) (toStop : Bool)
      (hroom : ¬s.log.currentBuffer.avail > line.length) :
      Moves s (.append line toStop) (notifyOne { s with log := LogAsync.append s.log line } toStop)
  | testRunning (h : s.thread = .test) (hrunning : s.running = true) :
      Moves s .test { s with thread := .enter }
  | testStopped (h : s.thread = .test) (hrunning : s.running = false) :
      Moves s .test { s with thread := .leaving }
  | lockWait (h : s.thread = .enter) (hempty : s.log.buffers = []) :
      Moves s .lock { s with thread := .waiting }
  | lock (log : World) (h : s.thread = .enter) (hne : s.log.buffers ≠ [])
      (hlog : LogAsync.step s.log .swap = some log) :
      Moves s .lock { s with log := log, thread := .write }
  | timeout (h : s.thread = .waiting) : Moves s .timeout { s with thread := .collect }
  | collect (log : World) (h : s.thread = .collect) (hlog : LogAsync.step s.log .swap = some log) :
      Moves s .collect { s with log := log, thread := .write }
  | limit (log : World) (h : s.thread = .write) (hlog : LogAsync.step s.log .limit = some log) :
      Moves s .limit { s with log := log, thread := .write }
  | write (log : World) (h : s.thread = .write) (hlog : LogAsync.step s.log .write = some log) :
      Moves s .write { s with log := log, thread := .write }
  | recycle (log : World) (h : s.thread = .write) (hlog : LogAsync.step s.log .recycle = some log) :
      Moves s .recycle { s with log := log, thread := .test }
  | lastNotify (h : s.thread = .leaving) :
      Moves s .lastNotify (notifyOne { s with thread := .ended } true)
  | stop (h : s.stop = .notCalled) : Moves s .stop { s with running := false, stop := .cleared }
  | notify (h : s.stop = .cleared) :
      Moves s .notify (notifyOne { s with stop := .notified } false)
  | wait (h : s.stop = .notified) : Moves s .wait { s with stop := .waiting }
  | wake (h : s.stop = .waiting) : Moves s .wake { s with stop := .joining }
  | join (h : s.stop = .joining) (hended : s.thread = .ended) :
      Moves s .join { s with stop := .returned }

theorem act_eq_some {s t : Logger} {a : Action} {next : Place} (h : s.act a next = some t) :
    ∃ log, LogAsync.step s.log a = some log ∧ t = { s with log := log, thread := next } := by
  obtain ⟨log, hlog, rfl⟩ := Option.map_eq_some_iff.mp h
  exact ⟨log, hlog, rfl⟩

theorem step_moves {s t : Logger} {m : Move} (h : s.step m = some t) : Moves s m t := by
  cases m with
  | append line toStop =>
      cases h
      split
      · rename_i hroom
        exact .append line toStop hroom
      · rename_i hroom
        exact .appendNotify line toStop hroom
  | test =>
      obtain ⟨hthread, ht⟩ := Option.ite_none_right_eq_some.mp h
      cases ht
      split
      · rename_i hrunning
        exact .testRunning hthread hrunning
      · rename_i hrunning
        exact .testStopped hthread (Bool.eq_false_iff.mpr hrunning)
  | lock =>
      obtain ⟨hthread, hlock⟩ := Option.ite_none_right_eq_some.mp h
      split at hlock
      · rename_i hempty
        cases hlock
        exact .lockWait hthread (List.isEmpty_iff.mp hempty)
      · rename_i hne
        obtain ⟨log, hlog, rfl⟩ := act_eq_some hlock
        exact .lock log hthread (fun heq => hne (List.isEmpty_iff.mpr heq)) hlog
  | timeout =>
      obtain ⟨hthread, ht⟩ := Option.ite_none_right_eq_some.mp h
      cases ht
      exact .timeout hthread
  | collect =>
      obtain ⟨hthread, hact⟩ := Option.ite_none_right_eq_some.mp h
      obtain ⟨log, hlog, rfl⟩ := act_eq_some hact
      exact .collect log hthread hlog
  | limit =>
      obtain ⟨hthread, hact⟩ := Option.ite_none_right_eq_some.mp h
      obtain ⟨log, hlog, rfl⟩ := act_eq_some hact
      exact .limit log hthread hlog
  | write =>
      obtain ⟨hthread, hact⟩ := Option.ite_none_right_eq_some.mp h
      obtain ⟨log, hlog, rfl⟩ := act_eq_some hact
      exact .write log hthread hlog
  | recycle =>
      obtain ⟨hthread, hact⟩ := Option.ite_none_right_eq_some.mp h
      obtain ⟨log, hlog, rfl⟩ := act_eq_some hact
      exact .recycle log hthread hlog
  | lastNotify =>
      obtain ⟨hthread, ht⟩ := Option.ite_none_right_eq_some.mp h
      cases ht
      exact .lastNotify hthread
  | stop =>
      obtain ⟨hstop, ht⟩ := Option.ite_none_right_eq_some.mp h
      cases ht
      exact .stop hstop
  | notify =>
      obtain ⟨hstop, ht⟩ := Option.ite_none_right_eq_some.mp h
      cases ht
      exact .notify hstop
  | wait =>
      obtain ⟨hstop, ht⟩ := Option.ite_none_right_eq_some.mp h
      cases ht
      exact .wait hstop
  | wake =>
      obtain ⟨hstop, ht⟩ := Option.ite_none_right_eq_some.mp h
      cases ht
      exact .wake hstop
  | join =>
      obtain ⟨hguard, ht⟩ := Option.ite_none_right_eq_some.mp h
      cases ht
      exact .join hguard.1 hguard.2

/-! ## What holds in every state -/

/-- `notify_one` wakes `stop()`, or the log thread, or nobody. -/
theorem notifyOne_cases (s : Logger) (toStop : Bool) :
    (s.stop = .waiting ∧ s.notifyOne toStop = { s with stop := .joining }) ∨
    (s.thread = .waiting ∧ s.notifyOne toStop = { s with thread := .collect }) ∨
    (s.stop ≠ .waiting ∧ s.thread ≠ .waiting ∧ s.notifyOne toStop = s) := by
  unfold notifyOne
  split
  · rename_i hstop
    exact .inl ⟨hstop.1, rfl⟩
  · rename_i hstop
    split
    · rename_i hthread
      exact .inr (.inl ⟨hthread, rfl⟩)
    · rename_i hthread
      exact .inr (.inr ⟨fun heq => hstop ⟨heq, .inr hthread⟩, hthread, rfl⟩)

@[simp] theorem notifyOne_log (s : Logger) (toStop : Bool) :
    (s.notifyOne toStop).log = s.log := by
  rcases notifyOne_cases s toStop with ⟨-, heq⟩ | ⟨-, heq⟩ | ⟨-, -, heq⟩ <;> rw [heq]

@[simp] theorem notifyOne_running (s : Logger) (toStop : Bool) :
    (s.notifyOne toStop).running = s.running := by
  rcases notifyOne_cases s toStop with ⟨-, heq⟩ | ⟨-, heq⟩ | ⟨-, -, heq⟩ <;> rw [heq]

/-- Between two rounds. -/
def isTop : Phase → Bool
  | .top _ _ => true
  | _ => false

theorem isTop_append (log : World) (line : List UInt8) :
    isTop (LogAsync.append log line).phase = isTop log.phase := by
  unfold LogAsync.append
  dsimp only
  split <;> rfl

/-- The log thread is inside a round exactly between the swap and the recycling. -/
theorem isTop_step {log log' : World} {a : Action} (h : LogAsync.step log a = some log')
    (happend : ∀ line, a ≠ .append line) :
    isTop log'.phase = true ↔ a = .recycle := by
  rcases step_cases h with ⟨line, rfl, rfl⟩ | ⟨b1, b2, rfl, -, rfl⟩ | ⟨newBuffer2, rfl, -, rfl⟩ |
    ⟨newBuffer2, i, b, rfl, -, -, rfl⟩ | ⟨newBuffer2, i, b1, b2, rfl, -, -, -, rfl⟩
  · exact absurd rfl (happend line)
  · unfold swap
    dsimp only
    split <;> simp [isTop]
  · unfold LogAsync.limit
    split <;> simp [isTop]
  · simp [isTop]
  · simp [isTop]

structure Inv (s : Logger) : Prop where
  spare : Spare s.log
  phase : isTop s.log.phase = true ↔ s.thread ≠ .write
  running : s.running = false ↔ s.stop ≠ .notCalled
  left : s.thread = .leaving ∨ s.thread = .ended → s.running = false
  ended : s.stop = .returned → s.thread = .ended

/-- The log at the start of the loop. -/
def start (startTime : List Char) : Logger := { log := { startTime := startTime } }

theorem inv_start (startTime : List Char) : Inv (start startTime) where
  spare := spare_start startTime
  phase := by simp [start, isTop]
  running := by simp [start]
  left := by simp [start]
  ended := by simp [start]

/-- The log thread goes on to another place between two rounds. -/
theorem inv_place {s : Logger} {next : Place} (hs : Inv s)
    (hbefore : s.thread ≠ .write ∧ s.thread ≠ .ended) (hafter : next ≠ .write)
    (hleft : next = .leaving ∨ next = .ended → s.running = false) :
    Inv { s with thread := next } :=
  ⟨hs.spare, iff_of_true (hs.phase.mpr hbefore.1) hafter, hs.running, hleft,
    fun hreturned => absurd (hs.ended hreturned) hbefore.2⟩

/-- `stop()` goes on. -/
theorem inv_stopPlace {s : Logger} {next : StopPlace} (hs : Inv s) (hbefore : s.stop ≠ .notCalled)
    (hafter : next ≠ .notCalled) (hreturned : next = .returned → s.thread = .ended) :
    Inv { s with stop := next } :=
  ⟨hs.spare, hs.phase, iff_of_true (hs.running.mpr hbefore) hafter, hs.left, hreturned⟩

/-- A wakeup changes nothing of this. -/
theorem inv_notifyOne {s : Logger} {toStop : Bool} (hs : Inv s) : Inv (s.notifyOne toStop) := by
  rcases notifyOne_cases s toStop with ⟨hstop, heq⟩ | ⟨hthread, heq⟩ | ⟨-, -, heq⟩
  · rw [heq]
    exact inv_stopPlace hs (by simp [hstop]) (by simp) (by simp)
  · rw [heq]
    exact inv_place hs (by simp [hthread]) (by simp) (by simp)
  · rw [heq]
    exact hs

theorem inv_append {s : Logger} (hs : Inv s) (line : List UInt8) :
    Inv { s with log := LogAsync.append s.log line } :=
  ⟨append_spare line hs.spare, (by rw [isTop_append]; exact hs.phase), hs.running, hs.left, hs.ended⟩

/-- A step of the log thread on the buffers, to the place after it. -/
theorem inv_act {s : Logger} {log : World} {a : Action} {next : Place} (hs : Inv s)
    (hlog : LogAsync.step s.log a = some log) (happend : ∀ line, a ≠ .append line)
    (hnext : next ≠ .write ↔ a = .recycle) (hbefore : s.thread ≠ .ended)
    (hafter : next ≠ .leaving ∧ next ≠ .ended) :
    Inv { s with log := log, thread := next } := by
  refine ⟨step_spare hs.spare hlog, (isTop_step hlog happend).trans hnext.symm, hs.running,
    fun hleft => ?_, fun hreturned => absurd (hs.ended hreturned) hbefore⟩
  rcases hleft with hleft | hleft
  · exact absurd hleft hafter.1
  · exact absurd hleft hafter.2

theorem inv_step {s t : Logger} {m : Move} (hs : Inv s) (h : s.step m = some t) : Inv t := by
  cases step_moves h with
  | append line toStop hroom => exact inv_append hs line
  | appendNotify line toStop hroom => exact inv_notifyOne (inv_append hs line)
  | testRunning hthread hrunning => exact inv_place hs (by simp [hthread]) (by simp) (by simp)
  | testStopped hthread hrunning =>
      exact inv_place hs (by simp [hthread]) (by simp) fun _ => hrunning
  | lockWait hthread hempty => exact inv_place hs (by simp [hthread]) (by simp) (by simp)
  | timeout hthread => exact inv_place hs (by simp [hthread]) (by simp) (by simp)
  | lock log hthread hne hlog =>
      exact inv_act hs hlog (by simp) (by simp) (by simp [hthread]) (by simp)
  | collect log hthread hlog =>
      exact inv_act hs hlog (by simp) (by simp) (by simp [hthread]) (by simp)
  | limit log hthread hlog =>
      exact inv_act hs hlog (by simp) (by simp) (by simp [hthread]) (by simp)
  | write log hthread hlog =>
      exact inv_act hs hlog (by simp) (by simp) (by simp [hthread]) (by simp)
  | recycle log hthread hlog =>
      exact inv_act hs hlog (by simp) (by simp) (by simp [hthread]) (by simp)
  | lastNotify hthread =>
      apply inv_notifyOne
      exact inv_place hs (by simp [hthread]) (by simp) fun _ => hs.left (.inl hthread)
  | stop hstop =>
      exact ⟨hs.spare, hs.phase, by simp, fun _ => rfl, fun hreturned => by cases hreturned⟩
  | notify hstop =>
      apply inv_notifyOne
      exact inv_stopPlace hs (by simp [hstop]) (by simp) (by simp)
  | wait hstop => exact inv_stopPlace hs (by simp [hstop]) (by simp) (by simp)
  | wake hstop => exact inv_stopPlace hs (by simp [hstop]) (by simp) (by simp)
  | join hstop hended => exact inv_stopPlace hs (by simp [hstop]) (by simp) fun _ => hended

theorem inv_run {startTime : List Char} {moves : List Move} {s : Logger}
    (h : run step (start startTime) moves = some s) : Inv s :=
  run_invariant (fun _ _ _ => inv_step) (inv_start startTime) h

/-! ## The last notification -/

/-- `stop()` waits and nobody will wake it. -/
def Deadlocked (s : Logger) : Prop := s.stop = .waiting ∧ s.thread = .ended

/-- `stop()` has begun its wait. -/
def BegunWait (s : Logger) : Prop :=
  s.stop = .waiting ∨ s.stop = .joining ∨ s.stop = .returned

/-- The last notification comes after `stop()` has begun its wait. -/
def Timely (s : Logger) (m : Move) : Prop := m = .lastNotify → s.BegunWait

/-- When the log thread has ended `stop()` has been woken. -/
def Woken (s : Logger) : Prop := s.thread = .ended → s.stop = .joining ∨ s.stop = .returned

theorem Woken.not_deadlocked {s : Logger} (hs : Woken s) : ¬Deadlocked s := by
  rintro ⟨hstop, hthread⟩
  have hwoken := hs hthread
  rw [hstop] at hwoken
  rcases hwoken with hwoken | hwoken <;> cases hwoken

theorem woken_notifyOne {s : Logger} {toStop : Bool} (hs : Woken s) :
    Woken (s.notifyOne toStop) := by
  rcases notifyOne_cases s toStop with ⟨hstop, heq⟩ | ⟨hthread, heq⟩ | ⟨-, -, heq⟩
  · rw [heq]
    exact fun _ => .inl rfl
  · rw [heq]
    exact fun hended => by cases hended
  · rw [heq]
    exact hs

theorem woken_step {s t : Logger} {m : Move} (hs : Woken s) (htimely : Timely s m)
    (h : s.step m = some t) : Woken t := by
  have hother {x : StopPlace} (hstop : s.stop = x) (hne : x ≠ .joining ∧ x ≠ .returned) :
      s.thread ≠ .ended := by
    intro hended
    have hwoken := hs hended
    rw [hstop] at hwoken
    exact hwoken.elim hne.1 hne.2
  cases step_moves h with
  | append line toStop hroom => exact hs
  | appendNotify line toStop hroom => exact woken_notifyOne hs
  | lastNotify hthread =>
      -- `stop()` waits and is woken, or has been woken before
      rcases notifyOne_cases { s with thread := .ended } true with
        ⟨hstop, heq⟩ | ⟨hthread, -⟩ | ⟨hstop, -, heq⟩
      · rw [heq]
        exact fun _ => .inl rfl
      · cases hthread
      · rw [heq]
        intro _
        exact (htimely rfl).resolve_left hstop
  | stop hstop => exact fun hended => absurd hended (hother hstop (by simp))
  | notify hstop =>
      apply woken_notifyOne
      exact fun hended => absurd hended (hother hstop (by simp))
  | wait hstop => exact fun hended => absurd hended (hother hstop (by simp))
  | wake hstop => exact fun _ => .inl rfl
  | join hstop hended => exact fun _ => .inr rfl
  | _ => exact fun hended => by cases hended

/-- A last notification that comes too early: `stop()` goes on to its wait and stays there. -/
theorem deadlocked_of_not_timely {s t : Logger} {m : Move} (hs : Inv s) (htimely : ¬Timely s m)
    (h : s.step m = some t) :
    ∃ bs u, (∀ b ∈ bs, b = .notify ∨ b = .wait) ∧ run step t bs = some u ∧ Deadlocked u := by
  obtain ⟨rfl, hearly⟩ := Classical.not_imp.mp htimely
  cases step_moves h with
  | lastNotify hthread =>
      have hcalled := hs.running.mp (hs.left (.inl hthread))
      have heq : notifyOne { s with thread := .ended } true = { s with thread := .ended } := by
        rcases notifyOne_cases { s with thread := .ended } true with
          ⟨hstop, -⟩ | ⟨hended, -⟩ | ⟨-, -, heq⟩
        · exact absurd (.inl hstop) hearly
        · cases hended
        · exact heq
      rw [heq]
      cases hstop : s.stop with
      | notCalled => exact absurd hstop hcalled
      | cleared =>
          refine ⟨[.notify, .wait], { s with thread := .ended, stop := .waiting }, by simp, ?_,
            rfl, rfl⟩
          simp [run, step, notifyOne]
      | notified =>
          refine ⟨[.wait], { s with thread := .ended, stop := .waiting }, by simp, ?_, rfl, rfl⟩
          simp [run, step]
      | waiting => exact absurd (.inl hstop) hearly
      | joining => exact absurd (.inr (.inl hstop)) hearly
      | returned => exact absurd (.inr (.inr hstop)) hearly

/-- In every run in which the log thread's last notification finds `stop()` in its wait, or
    past it, `stop()` is never left waiting.  The condition is exact: after a step nobody is left
    waiting, in any continuation without another last notification and without a wait that ends
    by itself, exactly when the step meets it. -/
theorem stop_not_deadlocked (startTime : List Char) (moves : List Move) (s : Logger)
    (h : run step (start startTime) moves = some s)
    (htimely : Along step Timely (start startTime) moves) :
    ¬Deadlocked s ∧
    ∀ m t, s.step m = some t →
      ((∀ bs u, (∀ b ∈ bs, b ≠ .lastNotify ∧ b ≠ .wake) → run step t bs = some u → ¬Deadlocked u) ↔
        Timely s m) := by
  have hs : Woken s :=
    run_invariant_along (fun _ _ _ => woken_step) (fun hended => by cases hended) h htimely
  refine ⟨hs.not_deadlocked, fun m t hstep => ⟨fun hnever => ?_, fun hm bs u hbs hrun => ?_⟩⟩
  · apply Classical.byContradiction
    intro hearly
    obtain ⟨bs, u, hbs, hrun, hdead⟩ := deadlocked_of_not_timely (inv_run h) hearly hstep
    refine hnever bs u (fun b hb => ?_) hrun hdead
    rcases hbs b hb with rfl | rfl <;> simp
  · apply Woken.not_deadlocked
    refine run_invariant_of (fun s b t hb hs hstep => woken_step hs ?_ hstep) hbs
      (woken_step hs hm hstep) hrun
    exact fun heq => absurd heq hb.1

instance (s : Logger) (m : Move) : Decidable (Timely s m) :=
  inferInstanceAs (Decidable (_ → _ ∨ _ ∨ _))

/-- `stop()` is in its wait before the log thread tests `m_running` again. -/
theorem stop_not_deadlocked_waiting :
    ∃ s, run step (start []) [.stop, .notify, .wait, .test, .lastNotify, .join] = some s ∧
      s.stop = .returned ∧ ¬Deadlocked s :=
  ⟨_, rfl, rfl, (stop_not_deadlocked [] [.stop, .notify, .wait, .test, .lastNotify, .join] _ rfl
    (by decide)).1⟩

/-- The log thread leaves between the clearing of `m_running` and the wait. -/
theorem stop_deadlocks :
    ∃ s, run step (start []) [.stop, .test, .lastNotify, .notify, .wait] = some s ∧ Deadlocked s :=
  ⟨_, rfl, rfl, rfl⟩

end Logger
end LogAsync
end Youth.Utils
