/-
  Youth.Utils.ThreadPool.Stop

  Threads inside `run()` of a bounded pool while another thread calls `stop()`.

  `stop()` wakes everybody once, but a thread in `run()` looks at the queue only, so it
  goes back to waiting while the queue is full.  After `stop()` a worker takes at most
  one task more, and only if it is already inside `take()`: each thread inside `run()`
  needs a free place in the queue, or one of these workers to make one (`Room`).
  `no_producer_stranded` says that this is exactly what keeps a thread from being left
  behind on `m_notFull` when the workers are gone.
-/

import Youth.Utils.ThreadPool.Queue

namespace Youth.Utils

open Youth.Lib

namespace ThreadPool

variable {τ : Type} {s t : ThreadPool τ} {a : Act τ}

/-- The free places in the queue. -/
def free (s : ThreadPool τ) : Nat := s.maxTaskNum - s.queue.length

/-- The places that the workers inside `take()` are about to free. -/
def freed (s : ThreadPool τ) : Nat := min (s.taking + s.notEmpty) s.queue.length

/-- There is a place for every thread inside `run()`. -/
def Room (s : ThreadPool τ) : Prop := s.inside.length ≤ s.free + s.freed

/-- `stop()` has returned, a thread waits on `m_notFull`, and no notification will come: it
    waits in every state from here on, unless it wakes up by itself. -/
def Stranded (s : ThreadPool τ) : Prop :=
  s.stopping = .returned ∧ s.notFull ≠ [] ∧
    ∀ acts t, (∀ a ∈ acts, ∀ k, a ≠ .wakeRun k) → run step s acts = some t →
      s.notFull <+: t.notFull

/-- There is room when `stop()` is called, and for each call of `run()` after that. -/
def Roomy (s : ThreadPool τ) : Act τ → Prop
  | .stop => s.Room
  | .call _ =>
    s.numThreads ≠ 0 → s.running = false → s.inside.length + 1 ≤ s.free + s.freed
  | _ => True

theorem length_inside (s : ThreadPool τ) :
    s.inside.length = s.entering.length + s.notFull.length :=
  List.length_append

/-! ## Places against threads -/

/-- `m_running` is cleared by `stop()` only. -/
theorem running_step (h : s.step a = some t) : t.running = s.running ∨ a = .stop := by
  cases step_cases h with
  | take k task rest htaking hqueue hnobody => exact .inl (execute_running _ _)
  | takeNotify k task waiter rest htaking hqueue hmax hwaiter => exact .inl (execute_running _ _)
  | stop hphase => exact .inr rfl
  | _ => exact .inl rfl

theorem lt_of_not_full (hbounded : 0 < s.maxTaskNum) (hfull : s.isFull = false) :
    s.queue.length < s.maxTaskNum := by
  have hnot : 0 < s.maxTaskNum → s.queue.length < s.maxTaskNum := by simpa [isFull] using hfull
  exact hnot hbounded

/-- After `stop()` a step of those who are inside already leaves a place to each that had one;
    unless a worker inside `take()` makes room for a push, it leaves no other. -/
theorem balance_step (hs : Inv s) (hbounded : 0 < s.maxTaskNum) (hstopped : s.running = false)
    (hcall : ∀ task, a ≠ .call task) (hjoin : a ≠ .join) (h : s.step a = some t) :
    t.inside.length + (s.free + s.freed) ≤ s.inside.length + (t.free + t.freed) ∧
      ((∀ k, a = .lockRun k → s.taking = 0) →
        s.inside.length + (t.free + t.freed) ≤ t.inside.length + (s.free + s.freed)) := by
  have hawake := hs.awake hstopped
  have hbound := hs.bound hbounded
  rw [length_inside, length_inside]
  cases step_cases h with
  | call task hpos => exact absurd rfl (hcall task)
  | callInline t' hzero => exact absurd rfl (hcall (some t'))
  | join hphase hended => exact absurd rfl hjoin
  | stop hphase => exact absurd hphase (hs.running.mp hstopped)
  | wait k task hk hfull =>
      have hlt := (List.getElem?_eq_some_iff.mp hk).1
      simp only [free, freed, List.length_eraseIdx, hlt, if_true, List.length_append,
        List.length_singleton]
      exact ⟨by omega, fun _ => by omega⟩
  | push k task hk hfull =>
      have hlt := (List.getElem?_eq_some_iff.mp hk).1
      have hplace := lt_of_not_full hbounded hfull
      simp only [free, freed, hawake, List.length_eraseIdx, hlt, if_true, List.length_append,
        List.length_singleton]
      refine ⟨by omega, fun hlast => ?_⟩
      have htaking := hlast k rfl
      omega
  | wakeRun k task hk =>
      have hlt := (List.getElem?_eq_some_iff.mp hk).1
      simp only [free, freed, List.length_eraseIdx, hlt, if_true, List.length_append,
        List.length_singleton]
      exact ⟨by omega, fun _ => by omega⟩
  | take k task rest htaking hqueue hnobody =>
      rw [hqueue, List.length_cons] at hbound
      simp only [free, freed, execute_maxTaskNum, execute_queue, execute_taking, execute_notEmpty,
        execute_entering, execute_notFull, hqueue, hawake, List.length_cons]
      exact ⟨by omega, fun _ => by omega⟩
  | takeNotify k task waiter rest htaking hqueue hmax hwaiter =>
      have hlt := (List.getElem?_eq_some_iff.mp hwaiter).1
      rw [hqueue, List.length_cons] at hbound
      simp only [free, freed, execute_maxTaskNum, execute_queue, execute_taking, execute_notEmpty,
        execute_entering, execute_notFull, hqueue, hawake, List.length_cons, List.length_eraseIdx,
        hlt, if_true, List.length_append, List.length_nil]
      exact ⟨by omega, fun _ => by omega⟩
  | takeNothing k htaking hqueue hrunning =>
      simp only [free, freed, hqueue, List.length_nil]
      exact ⟨by omega, fun _ => by omega⟩
  | testRunning htesting hrunning =>
      rw [hrunning] at hstopped
      cases hstopped
  | takeWait k htaking hqueue hrunning =>
      rw [hrunning] at hstopped
      cases hstopped
  | wakeTake hwaiting => exact absurd hawake hwaiting
  | finishInline k t' hk => exact ⟨Nat.le_refl _, fun _ => Nat.le_refl _⟩
  | testStopped htesting hrunning => exact ⟨Nat.le_refl _, fun _ => Nat.le_refl _⟩
  | finish k t' hk => exact ⟨Nat.le_refl _, fun _ => Nat.le_refl _⟩

/-! ## With room -/

/-- Bounded; a thread waits only while those on their way fill the free places; there is room
    once `stop()` has been called, and nobody waits when it has returned. -/
structure Safe (s : ThreadPool τ) : Prop where
  inv : Inv s
  bounded : 0 < s.maxTaskNum
  filling : s.stopping ≠ .returned → s.notFull ≠ [] → s.free ≤ s.entering.length
  room : s.running = false → s.Room
  left : s.stopping = .returned → s.notFull = []

theorem safe_start (numThreads : Nat) {maxTaskNum : Nat} (hmax : 0 < maxTaskNum) :
    Safe (start numThreads maxTaskNum : ThreadPool τ) where
  inv := inv_start numThreads maxTaskNum
  bounded := hmax
  filling := fun _ hne => absurd rfl hne
  room := fun h => by cases h
  left := fun h => by cases h

/-- When `stop()` has joined the workers nobody frees a place any more. -/
theorem Inv.freed_of_ended (hs : Inv s) (h : s.ended = s.numThreads) : s.freed = 0 := by
  have hstaff := hs.staff
  unfold ThreadPool.staff at hstaff
  unfold freed
  omega

/-- With room and no worker left nobody waits. -/
theorem Safe.nobody_waits (hs : Safe s) (hstopped : s.running = false)
    (hended : s.ended = s.numThreads) (hphase : s.stopping ≠ .returned) : s.notFull = [] := by
  apply Decidable.byContradiction
  intro hne
  have hroom := hs.room hstopped
  have hfilling := hs.filling hphase hne
  have hwaiting := List.length_pos_of_ne_nil hne
  rw [Room, hs.inv.freed_of_ended hended, length_inside] at hroom
  omega

/-- There is room after the step that calls `stop()`, and after each later one. -/
theorem Safe.room_step (hs : Safe s) (hroomy : Roomy s a) (h : s.step a = some t)
    (hstopped : t.running = false) : t.Room := by
  by_cases hbefore : s.running = false
  · have hroom := hs.room hbefore
    by_cases hcall : ∃ task, a = .call task
    · obtain ⟨task, rfl⟩ := hcall
      cases step_cases h with
      | call _ hpos =>
          have hnext := hroomy hpos hbefore
          rw [length_inside] at hnext
          rw [Room, length_inside]
          show (s.entering ++ [task]).length + s.notFull.length ≤ s.free + s.freed
          rw [List.length_append, List.length_singleton]
          omega
      | callInline t' hzero => exact hroom
    · by_cases hjoin : a = .join
      · -- the queue is cleared, and there was no worker left to free a place
        subst hjoin
        cases step_cases h with
        | join hphase hended =>
            rw [Room, hs.inv.freed_of_ended hended] at hroom
            show s.inside.length ≤ (s.maxTaskNum - 0) + _
            unfold free at hroom
            omega
      · have hbalance := (balance_step hs.inv hs.bounded hbefore
          (fun task heq => hcall ⟨task, heq⟩) hjoin h).1
        unfold Room at hroom ⊢
        omega
  · -- `stop()` itself: whoever waits goes back to the mutex
    rcases running_step h with hsame | rfl
    · rw [hsame] at hstopped
      exact absurd hstopped hbefore
    · cases step_cases h with
      | stop hphase =>
          have hroom : s.Room := hroomy
          rw [Room, length_inside] at hroom ⊢
          simp only [free, freed, List.length_append, List.length_nil] at hroom ⊢
          omega

/-- A thread goes to wait only on a full queue, and a free place makes one come back. -/
theorem Safe.filling_step (hs : Safe s) (h : s.step a = some t) (hphase : t.stopping ≠ .returned)
    (hne : t.notFull ≠ []) : t.free ≤ t.entering.length := by
  cases step_cases h with
  | call task hpos =>
      have hfilling := hs.filling hphase hne
      show s.free ≤ (s.entering ++ [task]).length
      rw [List.length_append]
      omega
  | wait k task hk hfull =>
      simp only [isFull, Bool.and_eq_true, decide_eq_true_eq] at hfull
      show s.maxTaskNum - s.queue.length ≤ _
      omega
  | push k task hk hfull =>
      have hlt := (List.getElem?_eq_some_iff.mp hk).1
      have hfilling := hs.filling hphase hne
      unfold free at hfilling ⊢
      simp only [List.length_eraseIdx, hlt, if_true, List.length_append, List.length_singleton]
      omega
  | wakeRun k task hk =>
      have hlt := (List.getElem?_eq_some_iff.mp hk).1
      have hfilling := hs.filling hphase (List.ne_nil_of_length_pos (by omega))
      show s.free ≤ (s.entering ++ [task]).length
      rw [List.length_append]
      omega
  | take k task rest htaking hqueue hnobody =>
      rcases hnobody with hzero | hnone
      · have hpos := hs.bounded
        omega
      · simp [hnone] at hne
  | takeNotify k task waiter rest htaking hqueue hmax hwaiter =>
      have hlt := (List.getElem?_eq_some_iff.mp hwaiter).1
      have hfilling := hs.filling (hs.inv.not_returned htaking) (List.ne_nil_of_length_pos (by omega))
      unfold free at hfilling ⊢
      simp only [execute_maxTaskNum, execute_queue, execute_entering, List.length_append,
        List.length_singleton]
      rw [hqueue, List.length_cons] at hfilling
      omega
  | stop hnew => exact absurd rfl hne
  | join hjoining hended => exact absurd rfl hphase
  | _ => exact hs.filling hphase hne

/-- Nobody waits when `stop()` returns, and nobody finds the queue full after that. -/
theorem Safe.left_step (hs : Safe s) (h : s.step a = some t) (hreturned : t.stopping = .returned) :
    t.notFull = [] := by
  cases step_cases h with
  | wait k task hk hfull =>
      have hlt := (List.getElem?_eq_some_iff.mp hk).1
      have hroom := hs.room (hs.inv.running.mpr (by rw [hreturned]; exact StopPhase.noConfusion))
      rw [Room, hs.inv.freed_of_ended (hs.inv.emptied hreturned), length_inside] at hroom
      simp only [isFull, Bool.and_eq_true, decide_eq_true_eq] at hfull
      unfold free at hroom
      omega
  | wakeRun k task hk =>
      have hlt := (List.getElem?_eq_some_iff.mp hk).1
      rw [hs.left hreturned] at hlt
      cases hlt
  | take k task rest htaking hqueue hnobody =>
      rw [execute_stopping] at hreturned
      exact absurd hreturned (hs.inv.not_returned htaking)
  | takeNotify k task waiter rest htaking hqueue hmax hwaiter =>
      rw [execute_stopping] at hreturned
      exact absurd hreturned (hs.inv.not_returned htaking)
  | stop hphase => rfl
  | join hphase hended =>
      have hactive : s.stopping ≠ .returned := by
        rw [hphase]
        exact StopPhase.noConfusion
      have hstopped := hs.inv.running.mpr (by rw [hphase]; exact StopPhase.noConfusion)
      exact hs.nobody_waits hstopped hended hactive
  | _ => exact hs.left hreturned

theorem bounded_step (hbounded : 0 < s.maxTaskNum) (h : s.step a = some t) : 0 < t.maxTaskNum := by
  rw [(numThreads_step h).2]
  exact hbounded

theorem safe_step (hs : Safe s) (hroomy : Roomy s a) (h : s.step a = some t) : Safe t where
  inv := inv_step hs.inv h
  bounded := bounded_step hs.bounded h
  filling := hs.filling_step h
  room := hs.room_step hroomy h
  left := hs.left_step h

/-! ## Without room -/

/-- After `stop()`, with too many threads inside `run()`. -/
structure Crowded (s : ThreadPool τ) : Prop where
  inv : Inv s
  bounded : 0 < s.maxTaskNum
  stopped : s.running = false
  crowd : s.free + s.freed < s.inside.length

/-- The worst schedule: the workers inside `take()` go first and the others leave, and the
    threads inside `run()` come last. -/
def settle (s : ThreadPool τ) : Act τ → Option (ThreadPool τ)
  | .lockTake 0 => s.step (.lockTake 0)
  | .finish 0 => s.step (.finish 0)
  | .test => s.step .test
  | .lockRun 0 => if s.taking = 0 then s.step (.lockRun 0) else none
  | _ => none

theorem settle_eq_some (h : s.settle a = some t) :
    s.step a = some t ∧ (∀ task, a ≠ .call task) ∧ (∀ k, a = .lockRun k → s.taking = 0) ∧
      a ≠ .join ∧ a ≠ .stop := by
  unfold settle at h
  split at h
  · exact ⟨h, by simp⟩
  · exact ⟨h, by simp⟩
  · exact ⟨h, by simp⟩
  · split at h
    · rename_i htaking
      exact ⟨h, by simp [htaking]⟩
    · cases h
  · cases h

/-- The worst schedule leaves the crowd as large as the room. -/
theorem crowded_settle (hs : Crowded s) (h : s.settle a = some t) : Crowded t := by
  obtain ⟨hstep, hcall, hlast, hjoin, hstop⟩ := settle_eq_some h
  have hbalance := (balance_step hs.inv hs.bounded hs.stopped hcall hjoin hstep).2 hlast
  have hcrowd := hs.crowd
  refine ⟨inv_step hs.inv hstep, bounded_step hs.bounded hstep, ?_, by omega⟩
  rcases running_step hstep with hsame | hcalled
  · rw [hsame]
    exact hs.stopped
  · exact absurd hcalled hstop

/-- What is left of the worst schedule. -/
def work (s : ThreadPool τ) : Nat :=
  4 * s.taking + 2 * s.executing.length + s.testing + s.entering.length

theorem work_settle (hs : Crowded s) (h : s.settle a = some t) : t.work < s.work := by
  have hstopped := hs.stopped
  have hawake := hs.inv.awake hstopped
  unfold settle at h
  split at h
  · cases step_cases h with
    | takeWait _ htaking hqueue hrunning =>
        rw [hrunning] at hstopped
        cases hstopped
    | takeNothing _ htaking hqueue hrunning =>
        simp only [work]
        omega
    | take _ task rest htaking hqueue hnobody =>
        cases task <;> simp [work, execute] <;> omega
    | takeNotify _ task waiter rest htaking hqueue hmax hwaiter =>
        cases task <;> simp [work, execute] <;> omega
  · cases step_cases h with
    | finish _ t' hk =>
        have hlt := (List.getElem?_eq_some_iff.mp hk).1
        simp only [work, List.length_eraseIdx, hlt, if_true]
        omega
  · cases step_cases h with
    | testRunning htesting hrunning =>
        rw [hrunning] at hstopped
        cases hstopped
    | testStopped htesting hrunning =>
        simp only [work]
        omega
  · split at h
    · cases step_cases h with
      | wait _ task hk hfull =>
          have hlt := (List.getElem?_eq_some_iff.mp hk).1
          simp only [work, List.length_eraseIdx, hlt, if_true]
          omega
      | push _ task hk hfull =>
          have hlt := (List.getElem?_eq_some_iff.mp hk).1
          simp only [work, hawake, List.length_eraseIdx, hlt, if_true]
          omega
    · cases h
  · cases h

/-- Where the worst schedule ends every worker has left and nobody is on the way. -/
theorem settled (h : ∀ a, s.settle a = none) :
    s.taking = 0 ∧ s.testing = 0 ∧ s.executing = [] ∧ s.entering = [] := by
  have htaking : s.taking = 0 := by
    have htake := h (.lockTake 0)
    simp only [settle, step, lockTake] at htake
    apply Decidable.byContradiction
    intro hne
    rw [if_neg hne] at htake
    split at htake
    · cases htake
    · split at htake
      · rw [Option.map_eq_none_iff, notifyNotFull] at htake
        split at htake
        · cases htake
        · rename_i hnone
          rw [if_pos (by simpa using hnone)] at htake
          cases htake
      · cases htake
  refine ⟨htaking, ?_, ?_, ?_⟩
  · have htest := h .test
    simp only [settle, step] at htest
    split at htest
    · assumption
    · cases htest
  · have hfinish := h (.finish 0)
    simp only [settle, step] at hfinish
    split at hfinish
    · rename_i hnone
      simpa using hnone
    · cases hfinish
  · have hrun := h (.lockRun 0)
    simp only [settle, htaking, if_true, step, lockRun] at hrun
    split at hrun
    · rename_i hnone
      simpa using hnone
    · split at hrun <;> cases hrun

/-- After `stop()` a thread leaves `m_notFull` only by itself. -/
theorem waiting_step (hs : Inv s) (hreturned : s.stopping = .returned)
    (ha : ∀ k, a ≠ .wakeRun k) (h : s.step a = some t) :
    t.stopping = .returned ∧ s.notFull <+: t.notFull := by
  -- there is no worker that could notify
  have htaking : s.taking = 0 := by
    apply Decidable.byContradiction
    intro hne
    exact hs.not_returned hne hreturned
  cases step_cases h with
  | wait k task hk hfull => exact ⟨hreturned, List.prefix_append _ _⟩
  | wakeRun k task hk => exact absurd rfl (ha k)
  | take k task rest hne hqueue hnobody => exact absurd htaking hne
  | takeNotify k task waiter rest hne hqueue hmax hwaiter => exact absurd htaking hne
  | stop hphase =>
      rw [hreturned] at hphase
      cases hphase
  | join hphase hended =>
      rw [hreturned] at hphase
      cases hphase
  | _ => exact ⟨hreturned, List.prefix_refl _⟩

theorem stranded_of_returned (hs : Inv s) (hreturned : s.stopping = .returned)
    (hne : s.notFull ≠ []) : Stranded s := by
  refine ⟨hreturned, hne, fun acts t hacts hrun => ?_⟩
  have hend : Inv t ∧ t.stopping = .returned ∧ s.notFull <+: t.notFull := by
    apply run_invariant_of (P := fun a => ∀ k, a ≠ .wakeRun k)
      (I := fun u => Inv u ∧ u.stopping = .returned ∧ s.notFull <+: u.notFull) _ hacts
      ⟨hs, hreturned, List.prefix_refl _⟩ hrun
    intro u a v ha hu hstep
    obtain ⟨hphase, hwaiting⟩ := waiting_step hu.1 hu.2.1 ha hstep
    exact ⟨inv_step hu.1 hstep, hphase, hu.2.2.trans hwaiting⟩
  exact hend.2.2

/-- No call of `run()` and none of `stop()`. -/
def Quiet (acts : List (Act τ)) : Prop := ∀ a ∈ acts, (∀ task, a ≠ .call task) ∧ a ≠ .stop

/-- A crowd ends with somebody left behind. -/
theorem stranded_of_crowded (hs : Crowded s) :
    ∃ acts t, Quiet acts ∧ run step s acts = some t ∧ Stranded t := by
  -- Let everybody settle
  have hlower (s : ThreadPool τ) (a : Act τ) (t : ThreadPool τ) (n : Nat)
      (hR : Crowded s ∧ s.work = n) (hstep : s.settle a = some t) :
      ∃ m < n, Crowded t ∧ t.work = m :=
    ⟨t.work, hR.2 ▸ work_settle hR.1 hstep, crowded_settle hR.1 hstep, rfl⟩
  obtain ⟨acts, u, hrun, hstuck⟩ := exists_stuck (R := fun s n => Crowded s ∧ s.work = n) hlower
    ⟨hs, rfl⟩
  have hu : Crowded u := run_invariant (fun _ _ _ => crowded_settle) hs hrun
  have hallowed (s : ThreadPool τ) (a : Act τ) (t : ThreadPool τ) (hstep : s.settle a = some t) :
      s.step a = some t ∧ ((∀ task, a ≠ .call task) ∧ a ≠ .stop) := by
    obtain ⟨hstep, hcall, -, -, hstop⟩ := settle_eq_some hstep
    exact ⟨hstep, hcall, hstop⟩
  obtain ⟨hrun, halong⟩ := run_mono hallowed hrun
  have hacts := halong.forall_mem hrun
  -- All that are left inside `run()` wait
  obtain ⟨htaking, htesting, hexecuting, hentering⟩ := settled hstuck
  have hne : u.notFull ≠ [] := by
    have hcrowd := hu.crowd
    rw [length_inside, hentering, List.length_nil] at hcrowd
    exact List.ne_nil_of_length_pos (by omega)
  by_cases hreturned : u.stopping = .returned
  · exact ⟨acts, u, hacts, hrun, stranded_of_returned hu.inv hreturned hne⟩
  · -- every worker has ended, so `stop()` returns
    have hended : u.ended = u.numThreads := by
      have hstaff := hu.inv.staff
      have hawake := hu.inv.awake hu.stopped
      unfold staff at hstaff
      rw [htaking, htesting, hexecuting, hawake, List.length_nil] at hstaff
      omega
    have hjoining : u.stopping = .joining := by
      have hcalled := hu.inv.running.mp hu.stopped
      cases hphase : u.stopping with
      | notCalled => exact absurd hphase hcalled
      | joining => rfl
      | returned => exact absurd hphase hreturned
    have hjoin : u.step .join =
        some { u with queue := [], cleared := u.cleared ++ u.queue, stopping := .returned } :=
      if_pos ⟨hjoining, hended⟩
    refine ⟨acts ++ [.join], _, ?_, run_append_eq_some.mpr ⟨u, hrun, by
      rw [run_cons_eq_some]
      exact ⟨_, hjoin, rfl⟩⟩, ?_⟩
    · intro a ha
      rcases List.mem_append.mp ha with hold | hnew
      · exact hacts a hold
      · rw [List.mem_singleton.mp hnew]
        exact ⟨fun _ => by simp, by simp⟩
    · exact stranded_of_returned (inv_step hu.inv hjoin) rfl hne

/-- A step that breaks the condition makes a crowd. -/
theorem crowded_of_not_roomy (hs : Safe s) (hroomy : ¬Roomy s a) (h : s.step a = some t) :
    Crowded t := by
  have hinv := inv_step hs.inv h
  have hbounded := bounded_step hs.bounded h
  cases step_cases h with
  | call task hpos =>
      simp only [Roomy, Classical.not_imp] at hroomy
      obtain ⟨-, hstopped, hcrowd⟩ := hroomy
      refine ⟨hinv, hbounded, hstopped, ?_⟩
      show s.free + s.freed < (s.entering ++ [task] ++ s.notFull).length
      rw [length_inside] at hcrowd
      simp only [List.length_append, List.length_singleton]
      omega
  | callInline t' hzero => exact absurd (fun hpos => absurd hzero hpos) hroomy
  | stop hphase =>
      refine ⟨hinv, hbounded, rfl, ?_⟩
      have hcrowd : ¬s.Room := hroomy
      rw [Room, length_inside] at hcrowd
      rw [length_inside]
      simp only [free, freed, List.length_append, List.length_nil] at hcrowd ⊢
      omega
  | _ => exact absurd trivial hroomy

theorem safe_run {numThreads maxTaskNum : Nat} (hmax : 0 < maxTaskNum) {acts : List (Act τ)}
    (h : run step (start numThreads maxTaskNum) acts = some s)
    (hroomy : Along step Roomy (start numThreads maxTaskNum) acts) : Safe s :=
  run_invariant_along (fun _ _ _ => safe_step) (safe_start numThreads hmax) h hroomy

theorem safe_of_quiet {acts : List (Act τ)} (hquiet : Quiet acts) (hs : Safe s)
    (h : run step s acts = some t) : Safe t := by
  apply run_invariant_of (P := fun a : Act τ => (∀ task, a ≠ .call task) ∧ a ≠ .stop) _ hquiet hs h
  intro u a v ha hu hstep
  apply safe_step hu _ hstep
  cases a with
  | call task => exact absurd rfl (ha.1 task)
  | stop => exact absurd rfl ha.2
  | _ => trivial

theorem Safe.not_stranded (hs : Safe s) : ¬Stranded s :=
  fun hstranded => hstranded.2.1 (hs.left hstranded.1)

/-- In every run of a bounded pool with room for the threads inside `run()` when `stop()` is
    called, and for each that calls `run()` later, nobody is left behind on `m_notFull`.  The
    condition is exact at each step: whatever happens until the next call, nobody is left behind
    after a step exactly when the step meets it. -/
theorem no_producer_stranded (numThreads maxTaskNum : Nat) (hmax : 0 < maxTaskNum)
    (acts : List (Act τ)) (s : ThreadPool τ)
    (h : run step (start numThreads maxTaskNum) acts = some s)
    (hroomy : Along step Roomy (start numThreads maxTaskNum) acts) :
    ¬Stranded s ∧
    ∀ a t, s.step a = some t →
      ((∀ bs u, Quiet bs → run step t bs = some u → ¬Stranded u) ↔ Roomy s a) := by
  have hs := safe_run hmax h hroomy
  refine ⟨hs.not_stranded, fun a t hstep => ⟨fun hnever => ?_, fun hnext bs u hquiet hrun => ?_⟩⟩
  · apply Classical.byContradiction
    intro hnot
    obtain ⟨bs, u, hquiet, hrun, hstranded⟩ :=
      stranded_of_crowded (crowded_of_not_roomy hs hnot hstep)
    exact hnever bs u hquiet hrun hstranded
  · exact (safe_of_quiet hquiet (safe_step hs hnext hstep) hrun).not_stranded

/-- One worker, one place: a thread that is inside `run()` when `stop()` is called gets it. -/
theorem no_producer_stranded_place :
    ¬Stranded (start 1 1 : ThreadPool Nat) ∧
    ∃ t, run step (start 1 1) [.call (some 0), .stop] = some t ∧ ¬Stranded (t : ThreadPool Nat) := by
  refine ⟨(no_producer_stranded 1 1 (by decide) [] _ rfl trivial).1, _, rfl, ?_⟩
  refine (no_producer_stranded 1 1 (by decide) [.call (some 0), .stop] _ rfl ?_).1
  refine ⟨fun _ hstopped => absurd hstopped (by decide), fun t ht => ⟨?_, fun _ _ => trivial⟩⟩
  cases ht
  show 1 ≤ 1
  decide

/-- One worker at a task, the queue full and a thread inside `run()`: `stop()` returns, and the
    thread is left behind. -/
theorem producer_stranded :
    ∃ t : ThreadPool Nat,
      run step (start 1 1)
        [.call (some 0), .lockRun 0, .test, .lockTake 0, .call (some 1), .lockRun 0, .call (some 2),
          .lockRun 0, .stop, .lockRun 0, .finish 0, .test, .join] = some t ∧
      Stranded t := by
  have hreached (acts : List (Act Nat)) (t : ThreadPool Nat) (h : run step (start 1 1) acts = some t) :
      Inv t := inv_run h
  refine ⟨_, rfl, stranded_of_returned (hreached
    [.call (some 0), .lockRun 0, .test, .lockTake 0, .call (some 1), .lockRun 0, .call (some 2),
      .lockRun 0, .stop, .lockRun 0, .finish 0, .test, .join] _ rfl) rfl (by decide)⟩

end ThreadPool
end Youth.Utils
