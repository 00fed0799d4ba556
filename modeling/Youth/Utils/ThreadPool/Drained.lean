/-
  Youth.Utils.ThreadPool.Drained

  Every task is run in the end, as long as nobody calls `stop()`.

  `notify_one` wakes one thread for each task pushed or taken, and is lost when nobody
  waits.  That is enough: a worker sleeps only if those awake can take what is in the
  queue, and a thread inside `run()` only if those on their way will fill it (`Awake`).
  So when no thread can go on there is nothing left to do; and since each step lowers
  `effort`, that is where every run without new calls ends.
-/

import Youth.Utils.ThreadPool.Queue

namespace Youth.Utils

open Youth.Lib

namespace ThreadPool

variable {τ : Type} {s t : ThreadPool τ} {a : Act τ}

/-- A step of the threads that are there: no new call, and no wait that ends by itself. -/
def Proceeds : Act τ → Prop
  | .call _ | .wakeRun _ | .wakeTake | .stop => False
  | _ => True

/-- The task of a call of `run()`. -/
def called : Act τ → Option (Task τ)
  | .call task => some task
  | _ => none

/-- A bound on the steps that are left. -/
def effort (s : ThreadPool τ) : Nat :=
  6 * s.entering.length + 5 * s.notFull.length + 4 * s.queue.length + 3 * s.executing.length +
    2 * s.testing + s.taking + s.inline.length

/-- The pool before `stop()`, with enough threads awake. -/
structure Awake (s : ThreadPool τ) : Prop where
  inv : Inv s
  running : s.running = true
  ended : s.ended = 0
  workers : s.notEmpty ≠ 0 → s.queue.length ≤ s.taking
  producers : s.notFull ≠ [] → s.maxTaskNum ≤ s.queue.length + s.entering.length
  bounded : s.notFull ≠ [] → 0 < s.maxTaskNum

theorem awake_start (numThreads maxTaskNum : Nat) :
    Awake (start numThreads maxTaskNum : ThreadPool τ) where
  inv := inv_start numThreads maxTaskNum
  running := rfl
  ended := rfl
  workers h := absurd rfl h
  producers h := absurd rfl h
  bounded h := absurd rfl h

/-- `stop()` has not been called. -/
theorem Awake.notCalled (hs : Awake s) : s.stopping = .notCalled := by
  apply Decidable.byContradiction
  intro hne
  have hstopped := hs.inv.running.mpr hne
  rw [hs.running] at hstopped
  cases hstopped

theorem length_eraseIdx_add {α : Type} {l : List α} {k : Nat} {x : α} (h : l[k]? = some x) :
    (l.eraseIdx k).length + 1 = l.length := by
  obtain ⟨hlt, -⟩ := List.getElem?_eq_some_iff.mp h
  rw [List.length_eraseIdx, if_pos hlt]
  omega

theorem awake_step (hs : Awake s) (ha : a ≠ .stop) (h : s.step a = some t) : Awake t := by
  have hinv := inv_step hs.inv h
  obtain ⟨hsinv, hrunning, hended, hworkers, hproducers, hbounded⟩ := hs
  cases step_cases h with
  | call task hpos =>
      refine ⟨hinv, hrunning, hended, hworkers, fun hne => ?_, hbounded⟩
      show s.maxTaskNum ≤ s.queue.length + (s.entering ++ [task]).length
      rw [List.length_append]
      exact Nat.le_trans (hproducers hne) (by omega)
  | callInline | finishInline | finish => exact ⟨hinv, hrunning, hended, hworkers, hproducers, hbounded⟩
  | wait k task hk hfull =>
      obtain ⟨hmax, hle⟩ : 0 < s.maxTaskNum ∧ s.maxTaskNum ≤ s.queue.length := by
        simpa [isFull] using hfull
      exact ⟨hinv, hrunning, hended, hworkers, fun _ => Nat.le_add_right_of_le hle, fun _ => hmax⟩
  | push k task hk hfull =>
      have hlen := length_eraseIdx_add hk
      refine ⟨hinv, hrunning, hended, fun hne => ?_, fun hne => ?_, hbounded⟩
      · -- one of those that slept is awake for the new task
        have hold := hworkers (Nat.ne_of_gt (Nat.lt_of_lt_of_le (Nat.pos_of_ne_zero hne) (Nat.sub_le _ _)))
        show (s.queue ++ [task]).length ≤ s.taking + min s.notEmpty 1
        replace hne : s.notEmpty - 1 ≠ 0 := hne
        rw [List.length_append, List.length_singleton]
        omega
      · have hold := hproducers hne
        show s.maxTaskNum ≤ (s.queue ++ [task]).length + (s.entering.eraseIdx k).length
        rw [List.length_append, List.length_singleton]
        omega
  | wakeRun k task hk =>
      have hne : s.notFull ≠ [] := by
        intro hnil
        rw [hnil] at hk
        cases hk
      refine ⟨hinv, hrunning, hended, hworkers, fun _ => ?_, fun _ => hbounded hne⟩
      have hold := hproducers hne
      show s.maxTaskNum ≤ s.queue.length + (s.entering ++ [task]).length
      rw [List.length_append]
      omega
  | testRunning htesting =>
      exact ⟨hinv, hrunning, hended, fun hne => Nat.le_succ_of_le (hworkers hne), hproducers, hbounded⟩
  | takeWait k htaking hqueue =>
      refine ⟨hinv, hrunning, hended, fun _ => ?_, hproducers, hbounded⟩
      show s.queue.length ≤ s.taking - 1
      rw [hqueue]
      exact Nat.zero_le _
  | wakeTake hwaiting =>
      exact ⟨hinv, hrunning, hended, fun _ => Nat.le_succ_of_le (hworkers hwaiting), hproducers, hbounded⟩
  | take k task rest htaking hqueue hnobody =>
      refine ⟨hinv, ?_, ?_, ?_, ?_, ?_⟩
      · rw [execute_running]
        exact hrunning
      · rw [execute_ended]
        exact hended
      · rw [execute_notEmpty, execute_queue, execute_taking]
        intro hne
        have hold := hworkers hne
        rw [hqueue, List.length_cons] at hold
        show rest.length ≤ s.taking - 1
        omega
      · rw [execute_notFull, execute_maxTaskNum]
        intro hne
        have hzero := hnobody.resolve_right hne
        show s.maxTaskNum ≤ _
        rw [hzero]
        exact Nat.zero_le _
      · rw [execute_notFull, execute_maxTaskNum]
        exact hbounded
  | takeNotify k task waiter rest htaking hqueue hmax hwaiter =>
      have hne : s.notFull ≠ [] := by
        intro hnil
        rw [hnil] at hwaiter
        cases hwaiter
      refine ⟨hinv, ?_, ?_, ?_, ?_, ?_⟩
      · rw [execute_running]
        exact hrunning
      · rw [execute_ended]
        exact hended
      · rw [execute_notEmpty, execute_queue, execute_taking]
        intro hsleep
        have hold := hworkers hsleep
        rw [hqueue, List.length_cons] at hold
        show rest.length ≤ s.taking - 1
        omega
      · rw [execute_notFull, execute_maxTaskNum, execute_queue, execute_entering]
        intro _
        -- the thread that is woken takes the place of the task
        have hold := hproducers hne
        rw [hqueue, List.length_cons] at hold
        show s.maxTaskNum ≤ rest.length + (s.entering ++ [waiter]).length
        rw [List.length_append, List.length_singleton]
        omega
      · rw [execute_notFull, execute_maxTaskNum]
        exact fun _ => hmax
  | testStopped htesting hstopped | takeNothing k htaking hqueue hstopped =>
      rw [hrunning] at hstopped
      cases hstopped
  | stop => exact absurd rfl ha
  | join hphase =>
      have hnot := Awake.notCalled ⟨hsinv, hrunning, hended, hworkers, hproducers, hbounded⟩
      rw [hphase] at hnot
      cases hnot

/-! ## No run goes on for ever -/

theorem execute_effort (s : ThreadPool τ) (task : Task τ) :
    (s.execute task).effort ≤ s.effort + 3 := by
  cases task with
  | none =>
      simp only [effort, execute]
      omega
  | some t =>
      simp only [effort, execute, List.length_append, List.length_singleton]
      omega

theorem effort_step (hs : Awake s) (ha : Proceeds a) (h : s.step a = some t) :
    t.effort < s.effort := by
  have hrunning := hs.running
  cases step_cases h with
  | wait k task hk hfull =>
      have hlen := length_eraseIdx_add hk
      simp only [effort, List.length_append, List.length_singleton]
      omega
  | push k task hk hfull =>
      have hlen := length_eraseIdx_add hk
      simp only [effort, List.length_append, List.length_singleton]
      omega
  | finishInline k t' hk | finish k t' hk =>
      have hlen := length_eraseIdx_add hk
      simp only [effort]
      omega
  | testRunning htesting =>
      simp only [effort]
      omega
  | takeWait k htaking hqueue =>
      simp only [effort]
      omega
  | take k task rest htaking hqueue hnobody =>
      apply Nat.lt_of_le_of_lt (execute_effort _ task)
      simp only [effort, hqueue, List.length_cons]
      omega
  | takeNotify k task waiter rest htaking hqueue hmax hwaiter =>
      have hlen := length_eraseIdx_add hwaiter
      apply Nat.lt_of_le_of_lt (execute_effort _ task)
      simp only [effort, hqueue, List.length_cons, List.length_append, List.length_nil]
      omega
  | testStopped htesting hstopped | takeNothing k htaking hqueue hstopped =>
      rw [hrunning] at hstopped
      cases hstopped
  | call | callInline | wakeRun | wakeTake | stop => exact ha.elim
  | join hphase =>
      rw [hs.notCalled] at hphase
      cases hphase

/-! ## Where it ends -/

/-- A worker inside `take()` can go on. -/
theorem taking_of_stuck (h : ∀ k, s.step (.lockTake k) = none) : s.taking = 0 := by
  have htake := h 0
  simp only [step, lockTake] at htake
  apply Decidable.byContradiction
  intro hne
  rw [if_neg hne] at htake
  split at htake
  · cases htake
  · split at htake
    · rw [Option.map_eq_none_iff, notifyNotFull] at htake
      -- somebody waits, and is woken, or nobody does
      split at htake
      · cases htake
      · rename_i hnone
        rw [if_pos (by simpa using hnone)] at htake
        cases htake
    · cases htake

/-- When no thread can go on, every worker sleeps and there is nothing to do. -/
theorem drained_of_stuck (hs : Awake s) (hworker : s.numThreads ≠ 0)
    (hstuck : ∀ a, Proceeds a → s.step a = none) :
    s.queue = [] ∧ s.inside = [] ∧ s.executing = [] := by
  have htaking := taking_of_stuck fun k => hstuck (.lockTake k) trivial
  have htesting : s.testing = 0 := by
    have htest := hstuck .test trivial
    simp only [step] at htest
    split at htest
    · assumption
    · cases htest
  have hexecuting : s.executing = [] := by
    have hfinish := hstuck (.finish 0) trivial
    simp only [step] at hfinish
    split at hfinish
    · rename_i hnone
      simpa using hnone
    · cases hfinish
  have hentering : s.entering = [] := by
    have hrun := hstuck (.lockRun 0) trivial
    simp only [step, lockRun] at hrun
    split at hrun
    · rename_i hnone
      simpa using hnone
    · split at hrun <;> cases hrun
  have hqueue : s.queue = [] := by
    have hstaff := hs.inv.staff
    rw [staff, htesting, htaking, hexecuting, hs.ended, List.length_nil] at hstaff
    have hle := hs.workers (by omega)
    rw [htaking] at hle
    exact List.length_eq_zero_iff.mp (Nat.le_zero.mp hle)
  have hnotFull : s.notFull = [] := by
    apply Decidable.byContradiction
    intro hne
    have hle := hs.producers hne
    have hpos := hs.bounded hne
    rw [hqueue, hentering] at hle
    exact absurd (Nat.lt_of_lt_of_le hpos hle) (Nat.lt_irrefl 0)
  exact ⟨hqueue, by rw [inside, hentering, hnotFull]; rfl, hexecuting⟩

/-! ## Runs -/

/-- The tasks that were brought are those pushed and those still inside `run()`. -/
theorem calls_run (hworker : s.numThreads ≠ 0) {acts : List (Act τ)} (h : run step s acts = some t) :
    (t.pushed ++ t.inside).Perm (s.pushed ++ s.inside ++ acts.filterMap called) := by
  induction acts generalizing s with
  | nil =>
      cases h
      rw [List.filterMap_nil, List.append_nil]
  | cons a as ih =>
      obtain ⟨u, hu, hrest⟩ := run_cons_eq_some.mp h
      have hthreads := (numThreads_step hu).1
      apply (ih (by rw [hthreads]; exact hworker) hrest).trans
      rcases inside_step hu with ⟨hpushed, hinside, hcall⟩ | ⟨task, rfl, hpushed, hinside⟩ |
        ⟨k, task, rfl, hpushed, hinside⟩
      · have hnone : called a = none := by
          cases a with
          | call task => exact absurd (hcall task rfl) hworker
          | _ => rfl
        rw [hpushed, List.filterMap_cons_none hnone]
        exact (hinside.append_left _).append_right _
      · rw [hpushed, List.filterMap_cons_some (show called (.call task) = some task from rfl)]
        have hone := (hinside.append_left s.pushed).append_right (as.filterMap called)
        refine hone.trans ?_
        rw [List.append_assoc, List.append_assoc, List.cons_append]
        exact List.perm_middle.symm.append_left _
      · rw [hpushed, List.filterMap_cons_none (show called (.lockRun k : Act τ) = none from rfl),
          List.append_assoc s.pushed]
        exact (hinside.append_left _).append_right _

/-- In every run without `stop()`, with any number of producers and workers and any waits that
    end by themselves: from every state on, the threads take at most `effort` steps without a
    new call or another such wakeup, and where they can take no more every task that was brought has been run, once,
    and nobody waits inside `run()`. -/
theorem tasks_done (numThreads maxTaskNum : Nat) (hworker : 0 < numThreads) (acts : List (Act τ))
    (hstop : .stop ∉ acts) (s : ThreadPool τ)
    (hrun : run step (start numThreads maxTaskNum) acts = some s) (more : List (Act τ))
    (hmore : ∀ a ∈ more, Proceeds a) (t : ThreadPool τ) (hrest : run step s more = some t) :
    more.length ≤ s.effort ∧
      ((∀ a, Proceeds a → t.step a = none) →
        t.queue = [] ∧ t.inside = [] ∧
          t.finished.Perm ((acts.filterMap called).filterMap id)) := by
  have hnotStop : ∀ a ∈ acts, a ≠ .stop := by
    intro a ha heq
    rw [heq] at ha
    exact hstop ha
  have hs : Awake s := run_invariant_of (fun _ _ _ ha h hstep => awake_step h ha hstep) hnotStop
    (awake_start numThreads maxTaskNum) hrun
  obtain ⟨hlength, ht, hcalls⟩ : more.length ≤ s.effort ∧ Awake t ∧ more.filterMap called = [] := by
    clear hrun
    induction more generalizing s with
    | nil =>
        cases hrest
        exact ⟨Nat.zero_le _, hs, rfl⟩
    | cons a as ih =>
        obtain ⟨hproceeds, hmore⟩ := List.forall_mem_cons.mp hmore
        obtain ⟨u, hu, hrest⟩ := run_cons_eq_some.mp hrest
        have hne : a ≠ .stop := fun heq => by
          rw [heq] at hproceeds
          exact hproceeds
        have hlower := effort_step hs hproceeds hu
        obtain ⟨hlength, ht, hcalls⟩ := ih u hmore hrest (awake_step hs hne hu)
        refine ⟨Nat.lt_of_le_of_lt hlength hlower, ht, ?_⟩
        rw [List.filterMap_cons_none ?_]
        · exact hcalls
        · cases a with
          | call task => exact hproceeds.elim
          | _ => rfl
  refine ⟨hlength, fun hstuck => ?_⟩
  have hboth : run step (start numThreads maxTaskNum) (acts ++ more) = some t :=
    run_append_eq_some.mpr ⟨s, hrun, hrest⟩
  have hthreads : t.numThreads ≠ 0 := by
    rw [(consts_run hboth).1]
    omega
  obtain ⟨hqueue, hinside, hexecuting⟩ := drained_of_stuck ht hthreads hstuck
  refine ⟨hqueue, hinside, ?_⟩
  have hcleared := ht.inv.uncleared (by rw [ht.notCalled]; exact StopPhase.noConfusion)
  have horder := ht.inv.order
  have honce := ht.inv.once hthreads
  have hbrought := calls_run (s := start numThreads maxTaskNum) (Nat.ne_of_gt hworker) hboth
  rw [hcleared, hqueue, List.append_nil, List.append_nil] at horder
  rw [hexecuting, horder] at honce
  rw [hinside, List.append_nil, List.filterMap_append, hcalls, List.append_nil] at hbrought
  exact honce.trans (hbrought.filterMap id)

/-- Two workers and a queue of one: three tasks are brought at once, and two have to wait. -/
def threeTasks : List (Act Nat) :=
  [.call (some 1), .call (some 2), .call (some 3), .test, .lockTake 0, .lockRun 0, .lockRun 0,
   .lockRun 0]

theorem tasks_done_threeTasks :
    ∃ s t, run step (start 2 1) threeTasks = some s ∧ s.notFull = [some 2, some 3] ∧
      run step s [.lockTake 0, .lockRun 0, .test, .lockTake 0, .lockRun 0, .finish 0, .test,
        .lockTake 0, .finish 0, .finish 0, .test, .test, .lockTake 0, .lockTake 0] = some t ∧
      t.finished.Perm [1, 2, 3] := by
  refine ⟨_, _, rfl, rfl, rfl, ?_⟩
  refine ((tasks_done 2 1 (by decide) threeTasks (by decide) _ rfl [.lockTake 0, .lockRun 0, .test,
    .lockTake 0, .lockRun 0, .finish 0, .test, .lockTake 0, .finish 0, .finish 0, .test, .test,
    .lockTake 0, .lockTake 0] (by simp [Proceeds]) _ rfl).2 ?_).2.2
  intro a ha
  cases a with
  | lockRun k | finish k | finishInline k => cases k <;> rfl
  | lockTake | test | join => rfl
  | call | wakeRun | wakeTake | stop => exact ha.elim

end ThreadPool
end Youth.Utils
