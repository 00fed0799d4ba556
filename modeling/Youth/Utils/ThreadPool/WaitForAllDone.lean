/-
  Youth.Utils.ThreadPool.WaitForAllDone

  One thread submits tasks with `run()` and then calls `waitForAllDone()`
  (`youth/utils/ThreadPool.cpp`), among other threads that use the pool.

  `waitForAllDone()` pushes a task that counts a latch down and waits for the latch.
  Workers take tasks in order but finish them in any order, so the latch task says
  something about the earlier ones only where they cannot overlap:
  `waitForAllDone_iff` says that the function waits for all of the thread's tasks
  exactly when there is at most one worker, or nothing to wait for.
-/

import Youth.Utils.ThreadPool.Queue

namespace Youth.Utils

open Youth.Lib

namespace ThreadPool

/-- Tasks by who submits them. -/
inductive Job
  /-- The `i`th task of the thread that calls `waitForAllDone()`. -/
  | own (i : Nat)
  /-- `latch.countDown()`. -/
  | latch
  /-- A task of another thread. -/
  | other (n : Nat)
  deriving DecidableEq, Repr

/-- Where the thread is that calls `waitForAllDone()`. -/
inductive Waiting
  /-- Outside the pool's functions. -/
  | outside
  /-- Inside `run()` with its last task. -/
  | submitting
  /-- Inside `waitForAllDone()`, in the call of `run()`. -/
  | pushingLatch
  /-- In `latch.wait()`. -/
  | atLatch
  /-- `waitForAllDone()` has returned. -/
  | returned
  deriving DecidableEq, Repr

structure Waiter where
  pool : ThreadPool Job
  phase : Waiting := .outside
  /-- How many of its tasks the thread has submitted. -/
  submitted : Nat := 0
  /-- The latch is at zero. -/
  counted : Bool := false
  deriving DecidableEq

namespace Waiter

def start (numThreads maxTaskNum : Nat) : Waiter := { pool := ThreadPool.start numThreads maxTaskNum }

/-- A thread is inside `run()` with this task. -/
def Inside (pool : ThreadPool Job) (job : Job) : Prop :=
  some job ∈ pool.entering ∨ some job ∈ pool.notFull ∨ job ∈ pool.inline

instance (pool : ThreadPool Job) (job : Job) : Decidable (Inside pool job) :=
  inferInstanceAs (Decidable (_ ∨ _ ∨ _))

inductive Act
  /-- The thread calls `run()` with its next task. -/
  | submit
  /-- The thread calls `waitForAllDone()`. -/
  | waitForAllDone
  /-- The call of `run()` returns. -/
  | leaveRun
  /-- The latch task counts down. -/
  | countDown
  /-- `latch.wait()` returns, and with it `waitForAllDone()`. -/
  | leaveLatch
  /-- A step of the workers or of the other threads. -/
  | pool (a : ThreadPool.Act Job)
  deriving DecidableEq

/-- The others submit tasks of their own, and the latch task returns after it counted down. -/
def foreign (w : Waiter) : ThreadPool.Act Job → Bool
  | .call (some (.own _)) => false
  | .call (some .latch) => false
  | .finish k => w.pool.executing[k]? ≠ some .latch || w.counted
  | .finishInline k => w.pool.inline[k]? ≠ some .latch || w.counted
  | _ => true

/-- The thread submits `total` tasks and then waits. -/
def step (total : Nat) (w : Waiter) : Act → Option Waiter
  | .submit =>
    if w.phase = .outside ∧ w.submitted < total then
      (w.pool.step (.call (some (.own w.submitted)))).map fun pool =>
        { w with pool := pool, phase := .submitting, submitted := w.submitted + 1 }
    else none
  | .waitForAllDone =>
    if w.phase = .outside ∧ w.submitted = total then
      (w.pool.step (.call (some .latch))).map fun pool =>
        { w with pool := pool, phase := .pushingLatch }
    else none
  | .leaveRun =>
    match w.phase with
    | .submitting =>
      if Inside w.pool (.own (w.submitted - 1)) then none else some { w with phase := .outside }
    | .pushingLatch =>
      if Inside w.pool .latch then none else some { w with phase := .atLatch }
    | _ => none
  | .countDown =>
    if .latch ∈ w.pool.executing ∨ .latch ∈ w.pool.inline then some { w with counted := true }
    else none
  | .leaveLatch =>
    if w.phase = .atLatch ∧ w.counted = true then some { w with phase := .returned } else none
  | .pool a =>
    if w.foreign a then (w.pool.step a).map fun pool => { w with pool := pool } else none

/-- The steps, one constructor for each way through the code. -/
inductive Moves (total : Nat) (w : Waiter) : Waiter → Prop
  | submit (pool : ThreadPool Job) (hphase : w.phase = .outside) (hlt : w.submitted < total)
      (hpool : w.pool.step (.call (some (.own w.submitted))) = some pool) :
      Moves total w
        { w with pool := pool, phase := .submitting, submitted := w.submitted + 1 }
  | waitForAllDone (pool : ThreadPool Job) (hphase : w.phase = .outside)
      (hall : w.submitted = total) (hpool : w.pool.step (.call (some .latch)) = some pool) :
      Moves total w { w with pool := pool, phase := .pushingLatch }
  | leaveSubmit (hphase : w.phase = .submitting)
      (hout : ¬Inside w.pool (.own (w.submitted - 1))) : Moves total w { w with phase := .outside }
  | leavePush (hphase : w.phase = .pushingLatch) (hout : ¬Inside w.pool .latch) :
      Moves total w { w with phase := .atLatch }
  | countDown (h : .latch ∈ w.pool.executing ∨ .latch ∈ w.pool.inline) :
      Moves total w { w with counted := true }
  | leaveLatch (hphase : w.phase = .atLatch) (hcounted : w.counted = true) :
      Moves total w { w with phase := .returned }
  | pool (a : ThreadPool.Act Job) (pool : ThreadPool Job) (hforeign : w.foreign a = true)
      (hpool : w.pool.step a = some pool) : Moves total w { w with pool := pool }

theorem step_moves {total : Nat} {w w' : Waiter} {a : Act} (h : w.step total a = some w') :
    Moves total w w' := by
  cases a with
  | submit =>
      obtain ⟨hguard, hcall⟩ := Option.ite_none_right_eq_some.mp h
      obtain ⟨pool, hpool, rfl⟩ := Option.map_eq_some_iff.mp hcall
      exact .submit pool hguard.1 hguard.2 hpool
  | waitForAllDone =>
      obtain ⟨hguard, hcall⟩ := Option.ite_none_right_eq_some.mp h
      obtain ⟨pool, hpool, rfl⟩ := Option.map_eq_some_iff.mp hcall
      exact .waitForAllDone pool hguard.1 hguard.2 hpool
  | leaveRun =>
      simp only [step] at h
      split at h
      · rename_i hphase
        obtain ⟨hout, hw⟩ := Option.ite_none_left_eq_some.mp h
        cases hw
        exact .leaveSubmit hphase hout
      · rename_i hphase
        obtain ⟨hout, hw⟩ := Option.ite_none_left_eq_some.mp h
        cases hw
        exact .leavePush hphase hout
      · cases h
  | countDown =>
      obtain ⟨hguard, hw⟩ := Option.ite_none_right_eq_some.mp h
      cases hw
      exact .countDown hguard
  | leaveLatch =>
      obtain ⟨hguard, hw⟩ := Option.ite_none_right_eq_some.mp h
      cases hw
      exact .leaveLatch hguard.1 hguard.2
  | pool a =>
      obtain ⟨hforeign, hact⟩ := Option.ite_none_right_eq_some.mp h
      obtain ⟨pool, hpool, rfl⟩ := Option.map_eq_some_iff.mp hact
      exact .pool a pool hforeign hpool

/-! ## The order of the thread's own tasks -/

/-- Submitted by the thread itself. -/
def mine : Job → Bool
  | .own _ => true
  | .latch => true
  | .other _ => false

/-- The thread's own tasks of a list. -/
def line (tasks : List (Task Job)) : List Job := (tasks.filterMap id).filter mine

@[simp] theorem line_append (xs ys : List (Task Job)) : line (xs ++ ys) = line xs ++ line ys := by
  simp [line]

theorem line_cons (task : Task Job) (tasks : List (Task Job)) :
    line (task :: tasks) = line [task] ++ line tasks :=
  line_append [task] tasks

theorem line_perm {xs ys : List (Task Job)} (h : xs.Perm ys) : (line xs).Perm (line ys) :=
  (h.filterMap id).filter mine

theorem mem_line {tasks : List (Task Job)} {job : Job} :
    job ∈ line tasks ↔ some job ∈ tasks ∧ mine job = true := by
  simp [line]

/-- The latch task has been handed to `run()`. -/
def Waiting.latchSent : Waiting → Bool
  | .outside => false
  | .submitting => false
  | .pushingLatch => true
  | .atLatch => true
  | .returned => true

/-- The thread is inside `run()`. -/
def Waiting.insideRun : Waiting → Bool
  | .submitting => true
  | .pushingLatch => true
  | _ => false

/-- The tasks that the thread has handed to `run()`, in order. -/
def sent (w : Waiter) : List Job :=
  (List.range w.submitted).map .own ++ if Waiting.latchSent w.phase then [.latch] else []

theorem sent_of_latchSent {w : Waiter} (h : Waiting.latchSent w.phase = true) :
    w.sent = (List.range w.submitted).map .own ++ [.latch] := by
  rw [sent, if_pos h]

theorem sent_of_not_latchSent {w : Waiter} (h : Waiting.latchSent w.phase = false) :
    w.sent = (List.range w.submitted).map .own := by
  rw [sent, h, if_neg Bool.false_ne_true, List.append_nil]

/-- The thread's tasks are pushed in the order of its calls, and the last one is still inside
    `run()` only while the thread is. -/
structure Ordered (total : Nat) (w : Waiter) : Prop where
  calls : line w.pool.pushed ++ line w.pool.inside = w.sent
  single : (line w.pool.inside).length ≤ 1
  quiet : Waiting.insideRun w.phase = false → line w.pool.inside = []
  all : Waiting.latchSent w.phase = true → w.submitted = total

/-- A permutation of a list of at most one task is that list. -/
theorem eq_of_perm_single {xs ys : List Job} (h : xs.Perm ys) (hlen : ys.length ≤ 1) : xs = ys := by
  match ys, hlen with
  | [], _ => exact List.perm_nil.mp h
  | [y], _ => exact List.perm_singleton.mp h

/-- Another thread's step leaves the order alone. -/
theorem line_foreign {w : Waiter} {a : ThreadPool.Act Job} {pool : ThreadPool Job}
    (hsingle : (line w.pool.inside).length ≤ 1) (hforeign : w.foreign a = true)
    (h : w.pool.step a = some pool) :
    line pool.pushed ++ line pool.inside = line w.pool.pushed ++ line w.pool.inside ∧
      (line pool.inside).length ≤ (line w.pool.inside).length := by
  obtain ⟨hpushed, hperm, -⟩ | ⟨task, rfl, hpushed, hperm⟩ | ⟨k, task, -, hpushed, hperm⟩ :=
    inside_step h
  · rw [hpushed, eq_of_perm_single (line_perm hperm) hsingle]
    exact ⟨rfl, Nat.le_refl _⟩
  · -- a call of another thread brings no task of this one
    have hother : line [task] = [] := by
      match task, hforeign with
      | none, _ => rfl
      | some (.other n), _ => rfl
    have hline := line_perm hperm
    rw [line_cons, hother, List.nil_append] at hline
    rw [hpushed, eq_of_perm_single hline hsingle]
    exact ⟨rfl, Nat.le_refl _⟩
  · -- a push moves the task from the threads inside to the queue
    have hline := line_perm hperm
    rw [line_cons] at hline
    have heq := eq_of_perm_single hline hsingle
    rw [hpushed, line_append, ← heq, List.append_assoc]
    refine ⟨rfl, ?_⟩
    rw [List.length_append]
    exact Nat.le_add_left _ _

/-- The thread's own call: its task is the only one of it inside `run()`. -/
theorem line_own {s pool : ThreadPool Job} {job : Job} (hpos : s.numThreads ≠ 0)
    (hquiet : line s.inside = []) (hmine : mine job = true)
    (h : s.step (.call (some job)) = some pool) :
    pool.pushed = s.pushed ∧ line pool.inside = [job] := by
  obtain ⟨-, -, hzero⟩ | ⟨task, htask, hpushed, hperm⟩ | ⟨k, task, hact, -⟩ := inside_step h
  · exact absurd (hzero _ rfl) hpos
  · cases htask
    have hline := line_perm hperm
    rw [line_cons, hquiet, List.append_nil] at hline
    have hjob : line [some job] = [job] := by simp [line, hmine]
    rw [hjob] at hline
    exact ⟨hpushed, List.perm_singleton.mp hline⟩
  · cases hact

/-- A thread whose last task is no longer inside `run()` has none there. -/
theorem quiet_of_not_inside {total : Nat} {w : Waiter} {job : Job} (hw : Ordered total w)
    (jobs : List Job) (hsent : w.sent = jobs ++ [job]) (hout : ¬Inside w.pool job) :
    line w.pool.inside = [] := by
  have hcalls := hw.calls
  rw [hsent] at hcalls
  match hline : line w.pool.inside, hw.single with
  | [], _ => rfl
  | [last], _ =>
      rw [hline] at hcalls
      have hlast : last = job := by simpa using (List.append_inj' hcalls rfl).2
      have hmem : last ∈ line w.pool.inside := by simp [hline]
      rw [hlast, mem_line] at hmem
      -- so it is on its way to the mutex or waits
      apply absurd _ hout
      rcases List.mem_append.mp hmem.1 with henter | hwait
      · exact .inl henter
      · exact .inr (.inl hwait)

/-- The thread's own call puts its task behind those it has sent. -/
theorem calls_own {total : Nat} {w v : Waiter} {job : Job} (hpos : w.pool.numThreads ≠ 0)
    (hw : Ordered total w) (hout : Waiting.insideRun w.phase = false) (hmine : mine job = true)
    (hsent : v.sent = w.sent ++ [job]) (hpool : w.pool.step (.call (some job)) = some v.pool) :
    line v.pool.pushed ++ line v.pool.inside = v.sent ∧ (line v.pool.inside).length ≤ 1 := by
  have hquiet := hw.quiet hout
  obtain ⟨hpushed, hline⟩ := line_own hpos hquiet hmine hpool
  have hcalls := hw.calls
  rw [hquiet, List.append_nil] at hcalls
  rw [hpushed, hline, hsent, hcalls]
  exact ⟨rfl, Nat.le_refl 1⟩

theorem ordered_step {total : Nat} {w w' : Waiter} (hpos : w.pool.numThreads ≠ 0)
    (hw : Ordered total w) (h : Moves total w w') : Ordered total w' := by
  cases h with
  | submit pool hphase hlt hpool =>
      have hsent : sent { w with pool := pool, phase := .submitting, submitted := w.submitted + 1 } =
          w.sent ++ [.own w.submitted] := by
        rw [sent_of_not_latchSent rfl, sent_of_not_latchSent (by rw [hphase]; rfl), List.range_succ,
          List.map_append]
        rfl
      obtain ⟨hcalls, hsingle⟩ := calls_own hpos hw (by rw [hphase]; rfl) rfl hsent hpool
      exact ⟨hcalls, hsingle, nofun, nofun⟩
  | waitForAllDone pool hphase hall hpool =>
      have hsent : sent { w with pool := pool, phase := .pushingLatch } = w.sent ++ [.latch] := by
        rw [sent_of_latchSent rfl, sent_of_not_latchSent (by rw [hphase]; rfl)]
      obtain ⟨hcalls, hsingle⟩ := calls_own hpos hw (by rw [hphase]; rfl) rfl hsent hpool
      exact ⟨hcalls, hsingle, nofun, fun _ => hall⟩
  | leaveSubmit hphase hout =>
      have hsent := sent_of_not_latchSent (w := w) (by rw [hphase]; rfl)
      have hcalls := hw.calls
      rw [hsent] at hcalls
      -- what was sent ends with the task of this call, if anything was
      have hquiet : line w.pool.inside = [] := by
        cases hsub : w.submitted with
        | zero =>
            rw [hsub] at hcalls
            exact (List.append_eq_nil_iff.mp hcalls).2
        | succ n =>
            apply quiet_of_not_inside hw ((List.range n).map .own) _ hout
            rw [hsent, hsub, List.range_succ, List.map_append]
            rfl
      refine ⟨?_, hw.single, fun _ => hquiet, nofun⟩
      rw [hcalls, sent_of_not_latchSent rfl]
  | leavePush hphase hout =>
      have hsent := sent_of_latchSent (w := w) (by rw [hphase]; rfl)
      have hquiet : line w.pool.inside = [] :=
        quiet_of_not_inside hw ((List.range w.submitted).map .own) hsent hout
      refine ⟨?_, hw.single, fun _ => hquiet, fun _ => hw.all (by rw [hphase]; rfl)⟩
      rw [hw.calls, hsent, sent_of_latchSent rfl]
  | countDown hlatch => exact ⟨hw.calls, hw.single, hw.quiet, hw.all⟩
  | leaveLatch hphase hcounted =>
      refine ⟨?_, hw.single, fun _ => hw.quiet (by rw [hphase]; rfl),
        fun _ => hw.all (by rw [hphase]; rfl)⟩
      rw [hw.calls, sent_of_latchSent (by rw [hphase]; rfl), sent_of_latchSent rfl]
  | pool a pool hforeign hpool =>
      obtain ⟨hline, hlen⟩ := line_foreign hw.single hforeign hpool
      refine ⟨hline.trans hw.calls, Nat.le_trans hlen hw.single, fun hin => ?_, hw.all⟩
      have hquiet := hw.quiet hin
      rw [hquiet] at hlen
      exact List.eq_nil_of_length_eq_zero (Nat.le_zero.mp hlen)

/-! ## A task once it has been started -/

theorem finished_step {s t : ThreadPool Job} {a : ThreadPool.Act Job} {job : Job}
    (h : s.step a = some t) (hjob : job ∈ s.finished) : job ∈ t.finished := by
  cases step_cases h <;> simp [hjob]

/-- The task that ends, or another one. -/
theorem eq_or_mem_eraseIdx {l : List Job} {k : Nat} {x job : Job} (hk : l[k]? = some x)
    (hjob : job ∈ l) : job = x ∨ job ∈ l.eraseIdx k :=
  List.mem_cons.mp ((eraseIdx_perm hk).mem_iff.mpr hjob)

theorem inline_step {s t : ThreadPool Job} {a : ThreadPool.Act Job} {job : Job}
    (h : s.step a = some t) (hjob : job ∈ s.inline) : job ∈ t.finished ∨ job ∈ t.inline := by
  cases step_cases h with
  | finishInline k t' hk =>
      rcases eq_or_mem_eraseIdx hk hjob with heq | hmem
      · exact .inl (List.mem_append_right _ (List.mem_singleton.mpr heq))
      · exact .inr hmem
  | _ => exact .inr (by simp [hjob])

theorem executing_step {s t : ThreadPool Job} {a : ThreadPool.Act Job} {job : Job}
    (h : s.step a = some t) (hjob : job ∈ s.executing) : job ∈ t.finished ∨ job ∈ t.executing := by
  cases step_cases h with
  | finish k t' hk =>
      rcases eq_or_mem_eraseIdx hk hjob with heq | hmem
      · exact .inl (List.mem_append_right _ (List.mem_singleton.mpr heq))
      · exact .inr hmem
  | _ => exact .inr (by simp [hjob])

/-- The task has been started. -/
def Begun (pool : ThreadPool Job) (job : Job) : Prop :=
  job ∈ pool.finished ∨ job ∈ pool.executing ∨ job ∈ pool.inline

theorem begun_step {s t : ThreadPool Job} {a : ThreadPool.Act Job} {job : Job}
    (h : s.step a = some t) (hbegun : Begun s job) : Begun t job := by
  rcases hbegun with hfinished | hexecuting | hinline
  · exact .inl (finished_step h hfinished)
  · rcases executing_step h hexecuting with hdone | hmem
    · exact .inl hdone
    · exact .inr (.inl hmem)
  · rcases inline_step h hinline with hdone | hmem
    · exact .inl hdone
    · exact .inr (.inr hmem)

/-! ## At most one worker -/

/-- The only worker finishes the tasks in the order in which it takes them. -/
def Serial (pool : ThreadPool Job) : Prop :=
  pool.taken.filterMap id = pool.finished ++ pool.executing

/-- The only worker runs at most one task, and none while it takes the next. -/
theorem executing_of_one {s : ThreadPool Job} (hs : Inv s) (hone : s.numThreads = 1) :
    s.executing.length ≤ 1 ∧ (s.taking ≠ 0 → s.executing = []) := by
  have hstaff := hs.staff
  unfold staff at hstaff
  refine ⟨by omega, fun htaking => List.eq_nil_of_length_eq_zero (by omega)⟩

theorem serial_step {s t : ThreadPool Job} {a : ThreadPool.Act Job} (hs : Inv s)
    (hone : s.numThreads = 1) (hserial : Serial s) (h : s.step a = some t) : Serial t := by
  obtain ⟨hlen, hidle⟩ := executing_of_one hs hone
  unfold Serial at hserial ⊢
  cases step_cases h with
  | finishInline k t' hk =>
      rw [hs.inline (by omega)] at hk
      cases hk
  | finish k t' hk =>
      -- the task in progress is the only one
      have hexec : s.executing = [t'] ∧ k = 0 := by
        match hl : s.executing, hlen with
        | [], _ =>
            rw [hl] at hk
            cases hk
        | [x], _ =>
            rw [hl] at hk
            cases k with
            | zero => exact ⟨by simpa using hk, rfl⟩
            | succ k => simp at hk
      rw [hserial, hexec.1, hexec.2]
      simp
  | take k task rest htaking hqueue hnobody =>
      simp only [execute_taken, execute_finished, execute_executing, List.filterMap_append,
        hserial, hidle htaking]
      cases task <;> simp
  | takeNotify k task waiter rest htaking hqueue hmax hwaiter =>
      simp only [execute_taken, execute_finished, execute_executing, List.filterMap_append,
        hserial, hidle htaking]
      cases task <;> simp
  | _ => exact hserial

/-- When the only worker has begun the latch task, the tasks before it are finished. -/
theorem finished_of_latch {total i : Nat} {w : Waiter} (hpool : Inv w.pool)
    (hw : Ordered total w) (hone : w.pool.numThreads = 1) (hserial : Serial w.pool)
    (hlatch : Begun w.pool .latch) (hi : i < total) : .own i ∈ w.pool.finished := by
  have hinline := hpool.inline (by omega)
  -- the latch task has been taken
  have htaken : Job.latch ∈ line w.pool.taken := by
    have hmem : Job.latch ∈ w.pool.finished ++ w.pool.executing := by
      unfold Begun at hlatch
      rw [hinline] at hlatch
      simpa using hlatch
    rw [← hserial] at hmem
    exact List.mem_filter.mpr ⟨hmem, rfl⟩
  -- so the thread had called `waitForAllDone()`, after all its tasks
  have hcalls := hw.calls
  rw [← hpool.order, line_append, line_append, List.append_assoc, List.append_assoc] at hcalls
  have hphase : Waiting.latchSent w.phase = true := by
    have hmem : Job.latch ∈ w.sent := by
      rw [← hcalls]
      exact List.mem_append.mpr (.inl htaken)
    apply Decidable.byContradiction
    intro hnot
    rw [sent_of_not_latchSent (Bool.eq_false_iff.mpr hnot)] at hmem
    simp at hmem
  have hsent : w.sent = (List.range total).map .own ++ [.latch] := by
    rw [sent_of_latchSent hphase, hw.all hphase]
  rw [hsent] at hcalls
  -- the tasks taken are a beginning of what was sent, with the latch task: all of it
  have hall : line w.pool.taken = (List.range total).map .own ++ [.latch] := by
    have hbegin : line w.pool.taken <+: (List.range total).map .own ++ [.latch] := ⟨_, hcalls⟩
    rcases List.prefix_concat_iff.mp hbegin with heq | hearlier
    · exact heq
    · have hmem := hearlier.subset htaken
      simp at hmem
  have hown : Job.own i ∈ w.pool.finished ++ w.pool.executing := by
    rw [← hserial]
    have hmem : Job.own i ∈ line w.pool.taken := by simp [hall, hi]
    exact (List.mem_filter.mp hmem).1
  rcases List.mem_append.mp hown with hdone | hexec
  · exact hdone
  · -- the latch task would be before a task that is still in progress
    have hlast : w.pool.executing = [.own i] := by
      match hl : w.pool.executing, (executing_of_one hpool hone).1 with
      | [], _ =>
          rw [hl] at hexec
          cases hexec
      | [x], _ =>
          rw [hl] at hexec
          rw [List.mem_singleton.mp hexec]
    rw [line, hserial, hlast, List.filter_append] at hall
    have hend := (List.append_inj' hall rfl).2
    cases hend

/-! ## No worker -/

/-- Without workers `run()` executes the task itself, before it returns. -/
structure Inlined (total : Nat) (w : Waiter) : Prop where
  own : ∀ i < w.submitted, .own i ∈ w.pool.finished ∨
    w.phase = .submitting ∧ i + 1 = w.submitted ∧ .own i ∈ w.pool.inline
  all : Waiting.latchSent w.phase = true → w.submitted = total

theorem inlined_step {total : Nat} {w w' : Waiter} (hzero : w.pool.numThreads = 0)
    (hw : Inlined total w) (h : Moves total w w') : Inlined total w' := by
  -- Outside `submitting` everything submitted is finished
  have hdone (hphase : w.phase ≠ .submitting) (i : Nat) (hi : i < w.submitted) :
      Job.own i ∈ w.pool.finished := by
    rcases hw.own i hi with hfin | ⟨hsub, -⟩
    · exact hfin
    · exact absurd hsub hphase
  cases h with
  | submit pool hphase hlt hpool =>
      refine ⟨fun i hi => ?_, fun hlatch => by cases hlatch⟩
      by_cases hold : i < w.submitted
      · exact .inl (finished_step hpool (hdone (by simp [hphase]) i hold))
      · have heq : i = w.submitted := by
          have hle : i < w.submitted + 1 := hi
          omega
        subst heq
        refine .inr ⟨rfl, rfl, ?_⟩
        cases step_cases hpool with
        | call task hpos => exact absurd hzero hpos
        | callInline => simp
  | waitForAllDone pool hphase hall hpool =>
      exact ⟨fun i hi => .inl (finished_step hpool (hdone (by simp [hphase]) i hi)), fun _ => hall⟩
  | leaveSubmit hphase hout =>
      refine ⟨fun i hi => .inl ?_, fun hlatch => by cases hlatch⟩
      rcases hw.own i hi with hfin | ⟨-, hlast, hin⟩
      · exact hfin
      · have heq : w.submitted - 1 = i := by omega
        rw [heq] at hout
        exact absurd (.inr (.inr hin)) hout
  | leavePush hphase hout =>
      exact ⟨fun i hi => .inl (hdone (by simp [hphase]) i hi),
        fun _ => hw.all (by rw [hphase]; rfl)⟩
  | countDown hlatch => exact ⟨hw.own, hw.all⟩
  | leaveLatch hphase hcounted =>
      exact ⟨fun i hi => .inl (hdone (by simp [hphase]) i hi),
        fun _ => hw.all (by rw [hphase]; rfl)⟩
  | pool a pool hforeign hpool =>
      refine ⟨fun i hi => ?_, hw.all⟩
      rcases hw.own i hi with hfin | ⟨hsub, hlast, hin⟩
      · exact .inl (finished_step hpool hfin)
      · rcases inline_step hpool hin with hfin | hstill
        · exact .inl hfin
        · exact .inr ⟨hsub, hlast, hstill⟩

/-! ## Every number of workers -/

/-- What holds of the thread and the pool in every state. -/
structure Kept (total : Nat) (w : Waiter) : Prop where
  pool : Inv w.pool
  counted : w.counted = true → Begun w.pool .latch
  returned : w.phase = .returned → w.counted = true
  ordered : w.pool.numThreads ≠ 0 → Ordered total w
  serial : w.pool.numThreads = 1 → Serial w.pool
  inlined : w.pool.numThreads = 0 → Inlined total w

theorem kept_start (numThreads maxTaskNum total : Nat) :
    Kept total (start numThreads maxTaskNum) where
  pool := inv_start numThreads maxTaskNum
  counted := fun h => by cases h
  returned := fun h => by cases h
  ordered := fun _ => ⟨rfl, Nat.zero_le _, fun _ => rfl, fun h => by cases h⟩
  serial := fun _ => rfl
  inlined := fun _ => ⟨fun _ hi => absurd hi (Nat.not_lt_zero _), fun h => by cases h⟩

/-- The step of the pool that a move makes, if it makes one. -/
theorem pool_of_moves {total : Nat} {w w' : Waiter} (h : Moves total w w') :
    w'.pool = w.pool ∨ ∃ a, w.pool.step a = some w'.pool := by
  cases h with
  | submit pool hphase hlt hpool => exact .inr ⟨_, hpool⟩
  | waitForAllDone pool hphase hall hpool => exact .inr ⟨_, hpool⟩
  | pool a pool hforeign hpool => exact .inr ⟨a, hpool⟩
  | _ => exact .inl rfl

theorem numThreads_of_moves {total : Nat} {w w' : Waiter} (h : Moves total w w') :
    w'.pool.numThreads = w.pool.numThreads := by
  rcases pool_of_moves h with heq | ⟨a, hpool⟩
  · rw [heq]
  · exact (numThreads_step hpool).1

theorem kept_step {total : Nat} {w w' : Waiter} (hw : Kept total w) (h : Moves total w w') :
    Kept total w' := by
  have hthreads := numThreads_of_moves h
  constructor
  · rcases pool_of_moves h with heq | ⟨a, hpool⟩
    · rw [heq]
      exact hw.pool
    · exact inv_step hw.pool hpool
  · cases h with
    | submit pool hphase hlt hpool => exact fun hc => begun_step hpool (hw.counted hc)
    | waitForAllDone pool hphase hall hpool => exact fun hc => begun_step hpool (hw.counted hc)
    | pool a pool hforeign hpool => exact fun hc => begun_step hpool (hw.counted hc)
    | countDown hlatch => exact fun _ => .inr hlatch
    | leaveSubmit hphase hout => exact hw.counted
    | leavePush hphase hout => exact hw.counted
    | leaveLatch hphase hcounted => exact hw.counted
  · cases h with
    | countDown hlatch => exact fun _ => rfl
    | leaveLatch hphase hcounted => exact fun _ => hcounted
    | pool a pool hforeign hpool => exact hw.returned
    | _ => exact fun hreturned => by cases hreturned
  · intro hpos
    rw [hthreads] at hpos
    exact ordered_step hpos (hw.ordered hpos) h
  · intro hone
    rw [hthreads] at hone
    rcases pool_of_moves h with heq | ⟨a, hpool⟩
    · rw [heq]
      exact hw.serial hone
    · exact serial_step hw.pool hone (hw.serial hone) hpool
  · intro hzero
    rw [hthreads] at hzero
    exact inlined_step hzero (hw.inlined hzero) h

theorem kept_run {numThreads maxTaskNum total : Nat} {acts : List Act} {w : Waiter}
    (h : run (step total) (start numThreads maxTaskNum) acts = some w) :
    Kept total w ∧ w.pool.numThreads = numThreads := by
  apply run_invariant (I := fun w => Kept total w ∧ w.pool.numThreads = numThreads) _
    ⟨kept_start numThreads maxTaskNum total, rfl⟩ h
  intro w a w' hw hstep
  have hmoves := step_moves hstep
  exact ⟨kept_step hw.1 hmoves, (numThreads_of_moves hmoves).trans hw.2⟩

/-- With at most one worker everything submitted before is finished. -/
theorem finished_of_returned {total : Nat} {w : Waiter} (hw : Kept total w)
    (hfew : w.pool.numThreads ≤ 1) (hreturned : w.phase = .returned) {i : Nat} (hi : i < total) :
    .own i ∈ w.pool.finished := by
  have hcounted := hw.returned hreturned
  by_cases hzero : w.pool.numThreads = 0
  · have hinlined := hw.inlined hzero
    have hall := hinlined.all (by rw [hreturned]; rfl)
    rcases hinlined.own i (by omega) with hfin | ⟨hsub, -⟩
    · exact hfin
    · rw [hreturned] at hsub
      cases hsub
  · have hone : w.pool.numThreads = 1 := by omega
    exact finished_of_latch hw.pool (hw.ordered hzero) hone (hw.serial hone)
      (hw.counted hcounted) hi

/-! ## Two workers -/

/-- One worker is at its first task, another is free: the tasks `0` to `i` have been
    submitted, and all but the first may be finished. -/
def stalled (free maxTaskNum i : Nat) (pushed taken : List (Task Job)) (finished : List Job) :
    Waiter :=
  { pool :=
      { maxTaskNum := maxTaskNum, numThreads := free + 2, testing := free + 1, executing := [.own 0]
        pushed := pushed, taken := taken, finished := finished }
    submitted := i }

/-- The first worker takes the first task and is held up in it. -/
theorem stalled_first (free maxTaskNum : Nat) {total : Nat} (h : 0 < total) :
    run (step total) (start (free + 2) maxTaskNum)
        [.submit, .pool (.lockRun 0), .leaveRun, .pool .test, .pool (.lockTake 0)] =
      some (stalled free maxTaskNum 1 [some (.own 0)] [some (.own 0)] []) := by
  have hguard : (start (free + 2) maxTaskNum).phase = .outside ∧
      (start (free + 2) maxTaskNum).submitted < total := ⟨rfl, h⟩
  rw [run_cons, step, if_pos hguard]
  -- the queue is empty, so it is not full
  cases maxTaskNum with
  | zero => rfl
  | succ n => rfl

/-- The free worker runs the task of the next call. -/
theorem stalled_next (free maxTaskNum : Nat) {i total : Nat} (hi : i < total)
    (pushed taken : List (Task Job)) (finished : List Job) :
    run (step total) (stalled free maxTaskNum i pushed taken finished)
        [.submit, .pool (.lockRun 0), .leaveRun, .pool .test, .pool (.lockTake 0),
          .pool (.finish 1)] =
      some (stalled free maxTaskNum (i + 1) (pushed ++ [some (.own i)]) (taken ++ [some (.own i)])
        (finished ++ [.own i])) := by
  have hguard : (stalled free maxTaskNum i pushed taken finished).phase = .outside ∧
      (stalled free maxTaskNum i pushed taken finished).submitted < total := ⟨rfl, hi⟩
  rw [run_cons, step, if_pos hguard]
  cases maxTaskNum with
  | zero => rfl
  | succ n => rfl

/-- The free worker runs the latch task, and `waitForAllDone()` returns. -/
theorem stalled_latch (free maxTaskNum total : Nat) (pushed taken : List (Task Job))
    (finished : List Job) :
    ∃ acts w, run (step total) (stalled free maxTaskNum total pushed taken finished) acts = some w ∧
      w.phase = .returned ∧ w.pool.finished = finished := by
  have hguard : (stalled free maxTaskNum total pushed taken finished).phase = .outside ∧
      (stalled free maxTaskNum total pushed taken finished).submitted = total := ⟨rfl, rfl⟩
  refine ⟨[.waitForAllDone, .pool (.lockRun 0), .leaveRun, .pool .test, .pool (.lockTake 0),
    .countDown, .leaveLatch], ?_⟩
  rw [run_cons, step, if_pos hguard]
  cases maxTaskNum with
  | zero => exact ⟨_, rfl, rfl, rfl⟩
  | succ n => exact ⟨_, rfl, rfl, rfl⟩

/-- All the tasks after the first are submitted and finished. -/
theorem stalled_run (free maxTaskNum : Nat) {total : Nat} (h : 0 < total) (i : Nat)
    (hi : i < total) :
    ∃ acts pushed taken finished,
      run (step total) (start (free + 2) maxTaskNum) acts =
        some (stalled free maxTaskNum (i + 1) pushed taken finished) ∧
      .own 0 ∉ finished := by
  induction i with
  | zero => exact ⟨_, _, _, _, stalled_first free maxTaskNum h, by simp⟩
  | succ i ih =>
      obtain ⟨acts, pushed, taken, finished, hrun, hout⟩ := ih (by omega)
      have hnext := stalled_next free maxTaskNum hi pushed taken finished
      refine ⟨_, _, _, _, run_append_eq_some.mpr ⟨_, hrun, hnext⟩, ?_⟩
      simp [hout]

/-- `waitForAllDone()` returns after every task that its thread submitted before, in every
    interleaving, exactly when there is at most one worker or no such task. -/
theorem waitForAllDone_iff (numThreads maxTaskNum total : Nat) :
    (∀ (acts : List Act) (w : Waiter), run (step total) (start numThreads maxTaskNum) acts = some w →
      w.phase = .returned → ∀ i < total, .own i ∈ w.pool.finished) ↔
    numThreads ≤ 1 ∨ total = 0 := by
  constructor
  · intro hall
    apply Decidable.byContradiction
    intro hmany
    -- hold one worker up at the first task and let another one do the rest
    obtain ⟨free, rfl⟩ : ∃ free, numThreads = free + 2 := ⟨numThreads - 2, by omega⟩
    have hpos : 0 < total := by omega
    obtain ⟨acts, pushed, taken, finished, hrun, hout⟩ :=
      stalled_run free maxTaskNum hpos (total - 1) (by omega)
    rw [show total - 1 + 1 = total by omega] at hrun
    obtain ⟨latch, w, hlatch, hreturned, hfinished⟩ :=
      stalled_latch free maxTaskNum total pushed taken finished
    have hown := hall _ w (run_append_eq_some.mpr ⟨_, hrun, hlatch⟩) hreturned 0 hpos
    rw [hfinished] at hown
    exact hout hown
  · rintro hfew acts w hrun hreturned i hi
    obtain ⟨hw, hthreads⟩ := kept_run hrun
    exact finished_of_returned hw (by omega) hreturned hi

/-- Two workers and one task: `waitForAllDone()` returns while the task is still running. -/
theorem waitForAllDone_returns_early :
    ∃ w, run (step 1) (start 2 8)
        [.submit, .pool (.lockRun 0), .leaveRun, .pool .test, .pool (.lockTake 0), .waitForAllDone,
          .pool (.lockRun 0), .leaveRun, .pool .test, .pool (.lockTake 0), .countDown,
          .leaveLatch] = some w ∧
      w.phase = .returned ∧ .own 0 ∈ w.pool.executing ∧ .own 0 ∉ w.pool.finished :=
  ⟨_, rfl, rfl, by decide, by decide⟩

end Waiter
end ThreadPool
end Youth.Utils
