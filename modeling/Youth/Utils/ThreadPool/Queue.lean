/-
  Youth.Utils.ThreadPool.Queue

  What the pool keeps over any interleaving of `run()`, `take()` and `stop()`.

  Each worker is at one place (`staff`), the queue is first in first out from the
  pushes to the tasks taken and those that `stop()` cleared (`order`), a task that was
  taken is run once (`once`), and a bounded queue stays within its bound (`bound`).
-/

import Youth.Utils.ThreadPool.Basic
import Mathlib.Data.List.Perm.Basic

namespace Youth.Utils

open Youth.Lib

namespace ThreadPool

variable {τ : Type} {s t : ThreadPool τ} {a : Act τ}

/-! ## The fields that `execute` leaves alone -/

section execute

variable (s : ThreadPool τ) (task : Task τ)

@[simp] theorem execute_maxTaskNum : (s.execute task).maxTaskNum = s.maxTaskNum := by
  cases task <;> rfl

@[simp] theorem execute_numThreads : (s.execute task).numThreads = s.numThreads := by
  cases task <;> rfl

@[simp] theorem execute_running : (s.execute task).running = s.running := by
  cases task <;> rfl

@[simp] theorem execute_queue : (s.execute task).queue = s.queue := by
  cases task <;> rfl

@[simp] theorem execute_taking : (s.execute task).taking = s.taking := by
  cases task <;> rfl

@[simp] theorem execute_notEmpty : (s.execute task).notEmpty = s.notEmpty := by
  cases task <;> rfl

@[simp] theorem execute_ended : (s.execute task).ended = s.ended := by
  cases task <;> rfl

@[simp] theorem execute_entering : (s.execute task).entering = s.entering := by
  cases task <;> rfl

@[simp] theorem execute_notFull : (s.execute task).notFull = s.notFull := by
  cases task <;> rfl

@[simp] theorem execute_inline : (s.execute task).inline = s.inline := by
  cases task <;> rfl

@[simp] theorem execute_stopping : (s.execute task).stopping = s.stopping := by
  cases task <;> rfl

@[simp] theorem execute_pushed : (s.execute task).pushed = s.pushed := by
  cases task <;> rfl

@[simp] theorem execute_taken : (s.execute task).taken = s.taken := by
  cases task <;> rfl

@[simp] theorem execute_cleared : (s.execute task).cleared = s.cleared := by
  cases task <;> rfl

@[simp] theorem execute_finished : (s.execute task).finished = s.finished := by
  cases task <;> rfl

@[simp] theorem execute_executing : (s.execute task).executing = s.executing ++ task.toList := by
  cases task with
  | none => exact (List.append_nil _).symm
  | some t => rfl

/-- The worker that got the task runs it, or tests `m_running` again. -/
@[simp] theorem execute_staff :
    (s.execute task).testing + task.toList.length = s.testing + 1 := by
  cases task <;> rfl

end execute

/-! ## Where the workers are -/

/-- The workers at work or asleep. -/
def staff (s : ThreadPool τ) : Nat :=
  s.testing + s.taking + s.notEmpty + s.executing.length + s.ended

theorem numThreads_step (h : s.step a = some t) :
    t.numThreads = s.numThreads ∧ t.maxTaskNum = s.maxTaskNum := by
  cases step_cases h <;> simp

/-- No step loses a worker. -/
theorem staff_step (h : s.step a = some t) : t.staff = s.staff := by
  cases step_cases h with
  | take k task rest htaking hqueue hnobody =>
      have hexec := execute_staff
        { s with taking := s.taking - 1, queue := rest, taken := s.taken ++ [task] } task
      simp only [staff, execute_taking, execute_notEmpty, execute_executing, execute_ended,
        List.length_append] at hexec ⊢
      omega
  | takeNotify k task waiter rest htaking hqueue hmax hwaiter =>
      have hexec := execute_staff
        { s with
          taking := s.taking - 1, queue := rest, taken := s.taken ++ [task]
          notFull := s.notFull.eraseIdx k, entering := s.entering ++ [waiter] } task
      simp only [staff, execute_taking, execute_notEmpty, execute_executing, execute_ended,
        List.length_append] at hexec ⊢
      omega
  | finish k t' hk =>
      have hlt := (List.getElem?_eq_some_iff.mp hk).1
      simp only [staff, List.length_eraseIdx, hlt, if_true]
      omega
  | _ => simp only [staff] <;> omega

/-! ## The queue -/

/-- What holds of the pool in every state. -/
structure Inv (s : ThreadPool τ) : Prop where
  staff : s.staff = s.numThreads
  /-- When `stop()` has returned there is no worker left. -/
  emptied : s.stopping = .returned → s.ended = s.numThreads
  uncleared : s.stopping ≠ .returned → s.cleared = []
  order : s.taken ++ s.cleared ++ s.queue = s.pushed
  inline : s.numThreads ≠ 0 → s.inline = []
  once : s.numThreads ≠ 0 → (s.executing ++ s.finished).Perm (s.taken.filterMap id)
  bound : 0 < s.maxTaskNum → s.queue.length ≤ s.maxTaskNum
  /-- `m_running` is cleared by `stop()` only. -/
  running : s.running = false ↔ s.stopping ≠ .notCalled
  awake : s.running = false → s.notEmpty = 0

theorem inv_start (numThreads maxTaskNum : Nat) :
    Inv (start numThreads maxTaskNum : ThreadPool τ) where
  staff := rfl
  emptied := by simp [start]
  uncleared := fun _ => rfl
  order := rfl
  inline := fun _ => rfl
  once := fun _ => .refl []
  bound := fun _ => Nat.zero_le _
  running := by simp [start]
  awake := fun _ => rfl

/-- No worker is inside `take()` once `stop()` has returned. -/
theorem Inv.not_returned (hs : Inv s) (h : s.taking ≠ 0) : s.stopping ≠ .returned := by
  intro hreturned
  have hstaff := hs.staff
  have hended := hs.emptied hreturned
  unfold ThreadPool.staff at hstaff
  omega

theorem eraseIdx_perm {α : Type} {l : List α} {k : Nat} {x : α} (h : l[k]? = some x) :
    (x :: l.eraseIdx k).Perm l := by
  obtain ⟨hlt, rfl⟩ := List.getElem?_eq_some_iff.mp h
  exact List.getElem_cons_eraseIdx_perm hlt

/-- A task moves from the queue to a worker. -/
theorem inv_execute {u : ThreadPool τ} {task : Task τ} {rest : List (Task τ)} (hs : Inv s)
    (htaking : s.taking ≠ 0) (hqueue : s.queue = task :: rest)
    (hu : u = { s with taking := s.taking - 1, queue := rest, taken := s.taken ++ [task],
                       notFull := u.notFull, entering := u.entering })
    (hstaff : (u.execute task).staff = s.staff) : Inv (u.execute task) := by
  have hcleared := hs.uncleared (hs.not_returned htaking)
  have horder := hs.order
  rw [hcleared, hqueue, List.append_nil] at horder
  constructor
  · rw [hstaff, hs.staff, execute_numThreads, hu]
  · rw [hu]
    simpa using hs.emptied
  · rw [hu]
    simpa using hs.uncleared
  · rw [hu]
    simpa [hcleared] using horder
  · rw [hu]
    simpa using hs.inline
  · intro hn
    have honce := hs.once (by rw [hu] at hn; simpa using hn)
    rw [hu]
    simp only [execute_executing, execute_finished, execute_taken, List.filterMap_append,
      List.append_assoc]
    have htail : [task].filterMap id = task.toList := by cases task <;> rfl
    rw [htail]
    -- the new task goes past those that have finished
    have hswap : (task.toList ++ s.finished).Perm (s.finished ++ task.toList) :=
      List.perm_append_comm
    have hend := honce.append_right task.toList
    rw [List.append_assoc] at hend
    exact (hswap.append_left s.executing).trans hend
  · intro hmax
    have hbound := hs.bound (by rw [hu] at hmax; simpa using hmax)
    rw [hqueue, List.length_cons] at hbound
    rw [hu]
    simp only [execute_queue, execute_maxTaskNum]
    omega
  · rw [hu]
    simpa using hs.running
  · rw [hu]
    simpa using hs.awake

theorem inv_step (hs : Inv s) (h : s.step a = some t) : Inv t := by
  have hstaff : t.staff = s.numThreads := (staff_step h).trans hs.staff
  cases step_cases h with
  | call task hpos => exact { hs with staff := hstaff }
  | callInline t' hzero =>
      exact { hs with staff := hstaff, inline := fun hpos => absurd hzero hpos }
  | wait k task hk hfull => exact { hs with staff := hstaff }
  | push k task hk hfull =>
      have hroom : 0 < s.maxTaskNum → s.queue.length < s.maxTaskNum := by
        simpa [isFull] using hfull
      refine { hs with staff := hstaff, order := ?_, bound := ?_, awake := ?_ }
      · show s.taken ++ s.cleared ++ (s.queue ++ [task]) = s.pushed ++ [task]
        rw [← List.append_assoc, hs.order]
      · intro hmax
        have hlt := hroom hmax
        show (s.queue ++ [task]).length ≤ s.maxTaskNum
        rw [List.length_append, List.length_singleton]
        omega
      · intro hrunning
        show s.notEmpty - 1 = 0
        rw [hs.awake hrunning]
  | wakeRun k task hk => exact { hs with staff := hstaff }
  | finishInline k t' hk =>
      -- only without workers
      have hzero : s.numThreads = 0 := by
        apply Decidable.byContradiction
        intro hpos
        rw [hs.inline hpos] at hk
        cases hk
      exact { hs with
        staff := hstaff
        inline := fun hpos => absurd hzero hpos
        once := fun hpos => absurd hzero hpos }
  | testRunning htesting hrunning => exact { hs with staff := hstaff }
  | testStopped htesting hrunning =>
      refine { hs with staff := hstaff, emptied := fun hreturned => ?_ }
      have hbefore := hs.emptied hreturned
      have hall := hs.staff
      unfold ThreadPool.staff at hall
      omega
  | takeWait k htaking hqueue hrunning =>
      refine { hs with staff := hstaff, awake := fun hstopped => ?_ }
      rw [hrunning] at hstopped
      cases hstopped
  | takeNothing k htaking hqueue hrunning => exact { hs with staff := hstaff }
  | take k task rest htaking hqueue hnobody =>
      exact inv_execute hs htaking hqueue rfl (hstaff.trans hs.staff.symm)
  | takeNotify k task waiter rest htaking hqueue hmax hwaiter =>
      exact inv_execute hs htaking hqueue rfl (hstaff.trans hs.staff.symm)
  | wakeTake hwaiting =>
      exact { hs with
        staff := hstaff
        awake := fun hstopped => absurd (hs.awake hstopped) hwaiting }
  | finish k t' hk =>
      refine { hs with staff := hstaff, once := fun hpos => ?_ }
      have hperm := (eraseIdx_perm hk).append_right s.finished
      -- the task goes from those in progress to the end of those finished
      have hmove : (s.executing.eraseIdx k ++ (s.finished ++ [t'])).Perm
          (t' :: s.executing.eraseIdx k ++ s.finished) := by
        rw [← List.append_assoc]
        exact List.perm_append_singleton t' _
      exact (hmove.trans hperm).trans (hs.once hpos)
  | stop hphase =>
      exact { hs with
        staff := hstaff
        emptied := fun hreturned => by cases hreturned
        uncleared := fun _ => hs.uncleared (by rw [hphase]; exact StopPhase.noConfusion)
        running := ⟨fun _ => StopPhase.noConfusion, fun _ => rfl⟩
        awake := fun _ => rfl }
  | join hphase hended =>
      have hcleared := hs.uncleared (by rw [hphase]; exact StopPhase.noConfusion)
      refine { hs with
        staff := hstaff
        emptied := fun _ => hended
        uncleared := fun hne => absurd rfl hne
        order := ?_
        bound := fun _ => Nat.zero_le _
        running := ?_ }
      · show s.taken ++ (s.cleared ++ s.queue) ++ [] = s.pushed
        rw [List.append_nil, ← List.append_assoc, hs.order]
      · have hstopped := hs.running.mpr (by rw [hphase]; exact StopPhase.noConfusion)
        exact ⟨fun _ => StopPhase.noConfusion, fun _ => hstopped⟩

theorem inv_run {numThreads maxTaskNum : Nat} {acts : List (Act τ)}
    (h : run step (start numThreads maxTaskNum) acts = some s) : Inv s :=
  run_invariant (fun _ _ _ => inv_step) (inv_start numThreads maxTaskNum) h

theorem consts_run {numThreads maxTaskNum : Nat} {acts : List (Act τ)}
    (h : run step (start numThreads maxTaskNum) acts = some s) :
    s.numThreads = numThreads ∧ s.maxTaskNum = maxTaskNum := by
  apply run_invariant
    (I := fun s : ThreadPool τ => s.numThreads = numThreads ∧ s.maxTaskNum = maxTaskNum) _
    ⟨rfl, rfl⟩ h
  intro s a t hs hstep
  obtain ⟨hthreads, hmax⟩ := numThreads_step hstep
  exact ⟨hthreads.trans hs.1, hmax.trans hs.2⟩

/-! ## The threads inside `run()` -/

/-- The threads inside `run()` that have not pushed, by the task they bring. -/
def inside (s : ThreadPool τ) : List (Task τ) := s.entering ++ s.notFull

/-- A thread moves between the mutex and the condition variable. -/
theorem inside_perm {entering notFull : List (Task τ)} {k : Nat} {task : Task τ}
    (h : notFull[k]? = some task) :
    ((entering ++ [task]) ++ notFull.eraseIdx k).Perm (entering ++ notFull) := by
  rw [List.append_assoc]
  exact (eraseIdx_perm h).append_left entering

/-- What a step does to the threads inside `run()`: one enters, one pushes its task, or they
    stay the same. -/
theorem inside_step (h : s.step a = some t) :
    (t.pushed = s.pushed ∧ t.inside.Perm s.inside ∧
      ∀ task, a = .call task → s.numThreads = 0) ∨
    (∃ task, a = .call task ∧ t.pushed = s.pushed ∧ t.inside.Perm (task :: s.inside)) ∨
    ∃ k task, a = .lockRun k ∧ t.pushed = s.pushed ++ [task] ∧
      (task :: t.inside).Perm s.inside := by
  cases step_cases h with
  | call task hpos =>
      refine .inr (.inl ⟨task, rfl, rfl, ?_⟩)
      show ((s.entering ++ [task]) ++ s.notFull).Perm (task :: (s.entering ++ s.notFull))
      rw [List.append_assoc]
      exact List.perm_middle
  | callInline t' hzero => exact .inl ⟨rfl, .refl _, fun _ _ => hzero⟩
  | push k task hk hfull =>
      exact .inr (.inr ⟨k, task, rfl, rfl, (eraseIdx_perm hk).append_right s.notFull⟩)
  | wait k task hk hfull =>
      refine .inl ⟨rfl, ?_, fun _ hcall => by cases hcall⟩
      show (s.entering.eraseIdx k ++ (s.notFull ++ [task])).Perm (s.entering ++ s.notFull)
      rw [← List.append_assoc]
      have hmove := (eraseIdx_perm hk).append_right s.notFull
      exact (List.perm_append_singleton task _).trans hmove
  | wakeRun k task hk =>
      exact .inl ⟨rfl, inside_perm hk, fun _ hcall => by cases hcall⟩
  | takeNotify k task waiter rest htaking hqueue hmax hwaiter =>
      refine .inl ⟨execute_pushed _ _, ?_, fun _ hcall => by cases hcall⟩
      simp only [inside, execute_entering, execute_notFull]
      exact inside_perm hwaiter
  | take k task rest htaking hqueue hnobody =>
      refine .inl ⟨execute_pushed _ _, ?_, fun _ hcall => by cases hcall⟩
      simp only [inside, execute_entering, execute_notFull]
      exact .refl _
  | stop hphase =>
      refine .inl ⟨rfl, ?_, fun _ hcall => by cases hcall⟩
      show ((s.entering ++ s.notFull) ++ []).Perm (s.entering ++ s.notFull)
      rw [List.append_nil]
  | _ => exact .inl ⟨rfl, .refl _, fun _ hcall => by cases hcall⟩

/-- First in, first out, through the workers and then `stop()`; every task that was taken is
    in progress or finished once, so distinct tasks are run at most once; and a bounded queue
    keeps its bound. -/
theorem queue_discipline (numThreads maxTaskNum : Nat) (hworker : 0 < numThreads)
    (acts : List (Act τ)) (s : ThreadPool τ)
    (h : run step (start numThreads maxTaskNum) acts = some s) :
    s.taken ++ s.cleared ++ s.queue = s.pushed ∧
    (s.executing ++ s.finished).Perm (s.taken.filterMap id) ∧
    ((s.pushed.filterMap id).Nodup → (s.executing ++ s.finished).Nodup) ∧
    (0 < maxTaskNum → s.queue.length ≤ maxTaskNum) := by
  have hs := inv_run h
  obtain ⟨hthreads, hmax⟩ := consts_run h
  have honce := hs.once (by omega)
  refine ⟨hs.order, honce, fun hdistinct => ?_, fun hpos => ?_⟩
  · rw [honce.nodup_iff]
    rw [← hs.order, List.append_assoc, List.filterMap_append] at hdistinct
    exact (List.nodup_append.mp hdistinct).1
  · rw [← hmax]
    exact hs.bound (by omega)

/-- Two workers, a queue of one: the second task waits for room, and `stop()` clears the
    third. -/
theorem queue_discipline_two :
    ∃ s : ThreadPool Nat,
      run step (start 2 1)
        [.call (some 1), .lockRun 0, .call (some 2), .lockRun 0, .test, .lockTake 0, .lockRun 0,
          .finish 0, .test, .lockTake 0, .call (some 3), .lockRun 0, .stop, .finish 0, .test, .test,
          .join] = some s ∧
      s.taken = [some 1, some 2] ∧ s.cleared = [some 3] ∧
      s.taken ++ s.cleared ++ s.queue = s.pushed :=
  ⟨_, rfl, rfl, rfl, (queue_discipline 2 1 (by decide) [.call (some 1), .lockRun 0, .call (some 2),
    .lockRun 0, .test, .lockTake 0, .lockRun 0, .finish 0, .test, .lockTake 0, .call (some 3),
    .lockRun 0, .stop, .finish 0, .test, .test, .join] _ rfl).1⟩

end ThreadPool
end Youth.Utils
