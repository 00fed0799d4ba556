/-
  Youth.Net.TimerQueue.Firing

  Which timers a run fires, and when.

  `firings` lists the callbacks of a run with the `now` of the batch they were run in.
  What a step does to a timer is said once: `heap_of_step` for the heap, `Steps` for the
  rest.  The other direction is `fires_of_waits`: from every state of a run, a timer
  that waits for its `addTimerInLoop` can be fired at its expiration.
-/

import Youth.Net.TimerQueue.Invariant

namespace Youth.Net
namespace TimerQueue

open Youth.Lib
open Youth.Core (DateTime)

variable {w w' : World}

/-! ## The log of a run -/

/-- The callback a step runs: the timer's sequence and the `now` of its batch. -/
def fired (w : World) : Action → List (Int × DateTime)
  | .runNext =>
    match w.firing with
    | some { now := now, expired := _, todo := x :: _ } => [((w.timer (ofLex x).2).sequence, now)]
    | _ => []
  | _ => []

/-- The callbacks of a run. -/
def firings : World → List Action → List (Int × DateTime)
  | _, [] => []
  | w, a :: as => fired w a ++ (step w a).elim [] fun w' => firings w' as

/-- The `now` of each callback of the timer `q`. -/
def firedAt (q : Int) (w : World) (as : List Action) : List DateTime :=
  (firings w as).filterMap fun x => if x.1 = q then some x.2 else none

theorem firings_cons {a : Action} {as : List Action} (h : step w a = some w') :
    firings w (a :: as) = fired w a ++ firings w' as := by
  rw [firings, h, Option.elim_some]

theorem firings_append {as bs : List Action} (h : run step w as = some w') :
    firings w (as ++ bs) = firings w as ++ firings w' bs := by
  induction as generalizing w with
  | nil =>
      cases h
      rfl
  | cons a as ih =>
      obtain ⟨u, hu, hrest⟩ := run_cons_eq_some.mp h
      rw [List.cons_append, firings_cons hu, firings_cons hu, ih hrest, List.append_assoc]

theorem fired_runNext {now : DateTime} {expired todo : List Entry} {x : Entry}
    (h : w.firing = some { now := now, expired := expired, todo := x :: todo }) :
    fired w .runNext = [((w.timer (ofLex x).2).sequence, now)] := by
  simp only [fired, h]

/-! ## What a step does to the heap -/

theorem addTimerInLoop_heap (w : World) (a : Addr) (clock : DateTime) :
    (addTimerInLoop w a clock).heap = w.heap := by
  simp only [addTimerInLoop]
  split <;> rfl

theorem cancelInLoop_active {id : ActiveTimer} (hid : id ∈ w.activeTimers) :
    (cancelInLoop w id).heap = Function.update w.heap id.1 none := by
  have hid' : id ∈ w.checkSizes.activeTimers := hid
  simp only [cancelInLoop, if_pos hid']
  rfl

theorem cancelInLoop_absent {id : ActiveTimer} (hid : id ∉ w.activeTimers) :
    (cancelInLoop w id).heap = w.heap ∧ (cancelInLoop w id).given = w.given ∧
      (w.callingExpiredTimers = true → id ∈ (cancelInLoop w id).cancelingTimers) := by
  have hid' : id ∉ w.checkSizes.activeTimers := hid
  simp only [cancelInLoop, if_neg hid']
  split
  · exact ⟨rfl, rfl, fun _ => Finset.mem_insert_self _ _⟩
  next hcalling => exact ⟨rfl, rfl, fun h => absurd h hcalling⟩

/-- What `cancelInLoop` remembers stays remembered. -/
theorem cancelInLoop_canceling (w : World) (id : ActiveTimer) :
    w.cancelingTimers ⊆ (cancelInLoop w id).cancelingTimers := by
  simp only [cancelInLoop]
  split
  · exact Finset.Subset.refl _
  · split
    · exact Finset.subset_insert _ _
    · exact Finset.Subset.refl _

/-- `reset` on one timer of the batch. -/
theorem resetTimer_heap (now : DateTime) (w : World) (x : Entry) :
    (resetTimer now w x).heap = Function.update w.heap (ofLex x).2 ((w.heap (ofLex x).2).bind fun t =>
      if t.repeat_ ∧ ((ofLex x).2, t.sequence) ∉ w.cancelingTimers then some (t.restart now)
      else none) := by
  simp only [resetTimer]
  cases ht : w.heap (ofLex x).2 with
  | none =>
      -- nothing to restart in freed memory
      have htimer : (w.touch (ofLex x).2).timer (ofLex x).2 = Timer.new 0 0 0 := by
        show (w.heap (ofLex x).2).getD _ = _
        rw [ht]
        rfl
      rw [htimer, if_neg (by simp [Timer.new])]
      rfl
  | some t =>
      have htimer : (w.touch (ofLex x).2).timer (ofLex x).2 = t := by
        show (w.heap (ofLex x).2).getD _ = _
        rw [ht]
        rfl
      rw [htimer, Option.bind_some]
      split
      next hrepeat =>
        rw [if_pos (by exact hrepeat)]
        rfl
      next hrepeat =>
        rw [if_neg (by exact hrepeat)]
        rfl

theorem resetTimer_canceling (now : DateTime) (w : World) (x : Entry) :
    (resetTimer now w x).cancelingTimers = w.cancelingTimers := by
  simp only [resetTimer]
  split <;> rfl

/-- The loop of `reset`: the repeating timers that are not being cancelled are restarted,
    the others of the batch deleted. -/
theorem foldl_resetTimer_heap {xs : List Entry} (hnodup : (addrs xs).Nodup) (now : DateTime)
    (w : World) (b : Addr) :
    (xs.foldl (resetTimer now) w).heap b =
      if b ∈ addrs xs then (w.heap b).bind fun t =>
        if t.repeat_ ∧ (b, t.sequence) ∉ w.cancelingTimers then some (t.restart now) else none
      else w.heap b := by
  induction xs generalizing w with
  | nil => simp [addrs]
  | cons x xs ih =>
      obtain ⟨hx, hnodup⟩ := List.nodup_cons.mp hnodup
      rw [List.foldl_cons, ih hnodup, resetTimer_canceling, resetTimer_heap]
      by_cases hb : b = (ofLex x).2
      · have hnot : b ∉ addrs xs := hb ▸ hx
        rw [if_neg hnot, if_pos (mem_addrs_cons.mpr (.inl hb)), hb, Function.update_self]
      · rw [Function.update_of_ne hb]
        simp only [mem_addrs_cons, hb, false_or]

theorem armNext_heap (w : World) (clock : DateTime) : (armNext w clock).heap = w.heap := by
  unfold armNext
  split
  · rfl
  · dsimp only
    split <;> rfl

/-- Where the timer that a step leaves at `b` comes from. -/
inductive Origin (w : World) (b : Addr) : Action → Timer → Prop
  | made (when_ : DateTime) (interval : ℚ) :
      Origin w b (.newTimer b when_ interval) (Timer.new when_ interval w.numCreated)
  | kept (a : Action) (u : Timer) (hu : w.heap b = some u)
      (hbatch : ∀ clock, a = .finishRead clock → b ∉ w.batch) : Origin w b a u
  | restarted (clock : DateTime) (f : Firing) (t : Timer) (hfiring : w.firing = some f)
      (hb : b ∈ addrs f.expired) (ht : w.heap b = some t) (hrepeat : t.repeat_ = true)
      (hcancel : (b, t.sequence) ∉ w.cancelingTimers) :
      Origin w b (.finishRead clock) (t.restart f.now)

theorem heap_of_step (hinv : Inv w) {a : Action} (h : Steps w a w') {b : Addr} {u : Timer}
    (hu : w'.heap b = some u) : Origin w b a u := by
  cases h with
  | newTimer a when_ interval hfree hmax =>
      rcases heap_withNew hu with ⟨rfl, rfl⟩ | ⟨-, hu⟩
      · exact .made when_ interval
      · exact .kept _ u hu (by simp)
  | otherTimer => exact .kept _ u hu (by simp)
  | addTimerInLoop a clock hwait =>
      rw [addTimerInLoop_heap] at hu
      exact .kept _ u hu (by simp)
  | cancelInLoop id =>
      by_cases hid : id ∈ w.activeTimers
      · rw [cancelInLoop_active hid] at hu
        by_cases hb : b = id.1
        · rw [hb, Function.update_self] at hu
          cases hu
        · rw [Function.update_of_ne hb] at hu
          exact .kept _ u hu (by simp)
      · rw [(cancelInLoop_absent hid).1] at hu
        exact .kept _ u hu (by simp)
  | handleRead now clock hidle =>
      rw [handleRead_eq hinv hidle] at hu
      exact .kept _ u hu (by simp)
  | runNext now expired x todo hfiring => exact .kept _ u hu (by simp)
  | finishRead clock now expired hfiring =>
      simp only [Inv, hfiring] at hinv
      obtain ⟨ran, -, hgood⟩ := hinv
      simp only [reset, armNext_heap, foldl_resetTimer_heap hgood.held.nodup] at hu
      by_cases hb : b ∈ addrs expired
      · rw [if_pos hb] at hu
        obtain ⟨t, ht, hu⟩ := Option.bind_eq_some_iff.mp hu
        split at hu
        next hrepeat =>
          cases hu
          exact .restarted clock ⟨now, expired, []⟩ t hfiring hb ht hrepeat.1 hrepeat.2
        · cases hu
      · rw [if_neg hb] at hu
        refine .kept _ u hu fun _ _ => ?_
        rw [World.batch, hfiring]
        exact hb

theorem numCreated_le {a : Action} (hinv : Inv w) (h : Steps w a w') :
    w.numCreated ≤ w'.numCreated := by
  cases h with
  | newTimer a when_ interval hfree hmax => exact (lt_add_one w.numCreated).le
  | otherTimer => exact (lt_add_one w.numCreated).le
  | addTimerInLoop a clock hwait =>
      simp only [addTimerInLoop]
      split <;> exact le_rfl
  | cancelInLoop id =>
      simp only [cancelInLoop]
      split
      · exact le_rfl
      · split <;> exact le_rfl
  | handleRead now clock hidle =>
      rw [handleRead_eq hinv hidle]
  | runNext now expired x todo hfiring => exact le_rfl
  | finishRead clock now expired hfiring => exact (reset_rest _ _ _ _).2.2.ge

/-! ## The id of a timer -/

/-- `id` is the number of a timer made at its address: no other timer has the number. -/
def Issued (w : World) (id : ActiveTimer) : Prop :=
  id.2 < w.numCreated ∧ ∀ b t, w.heap b = some t → t.sequence = id.2 → b = id.1

theorem step_issued {id : ActiveTimer} {a : Action} (hinv : Inv w) (h : Issued w id)
    (hsteps : Steps w a w') : Issued w' id := by
  refine ⟨lt_of_lt_of_le h.1 (numCreated_le hinv hsteps), fun b u hu hseq => ?_⟩
  cases heap_of_step hinv hsteps hu with
  | made when_ interval => exact absurd hseq h.1.ne'
  | kept _ _ hu hbatch => exact h.2 b u hu hseq
  | restarted clock f t hfiring hb ht hrepeat hcancel => exact h.2 b t ht hseq

theorem withNew_issued (hinv : Inv w) (a : Addr) (when_ : DateTime) (interval : ℚ) :
    Issued (w.withNew a when_ interval) (a, w.numCreated) := by
  obtain ⟨done, hgood⟩ := hinv.good
  refine ⟨lt_add_one _, fun b u hu hseq => ?_⟩
  rcases heap_withNew hu with ⟨hb, -⟩ | ⟨-, hu⟩
  · exact hb
  · exact absurd hseq (hgood.alive.made b u hu).1.ne

/-! ## Making a timer fire -/

theorem mem_firedAt {q : Int} {n : DateTime} {as : List Action} :
    n ∈ firedAt q w as ↔ (q, n) ∈ firings w as := by
  simp only [firedAt, List.mem_filterMap, Option.ite_none_right_eq_some, Option.some.injEq]
  constructor
  · rintro ⟨x, hx, rfl, rfl⟩
    exact hx
  · exact fun h => ⟨(q, n), h, rfl, rfl⟩

/-- The callbacks that are still to run are run. -/
theorem fires_of_todo {f : Firing} {a : Addr} {t : Timer} (hfiring : w.firing = some f)
    (ha : a ∈ addrs f.todo) (ht : w.heap a = some t) :
    ∃ k, f.now ∈ firedAt t.sequence w (List.replicate k .runNext) := by
  obtain ⟨now, expired, todo⟩ := f
  induction todo generalizing w with
  | nil => exact absurd ha List.not_mem_nil
  | cons x todo ih =>
      have hstep : step w .runNext = some { runTimer w (ofLex x).2 with
          firing := some { now := now, expired := expired, todo := todo } } := by
        simp only [step, hfiring]
      by_cases hx : a = (ofLex x).2
      · refine ⟨1, mem_firedAt.mpr ?_⟩
        rw [List.replicate_one, firings_cons hstep, fired_runNext hfiring, ← hx, timer_of ht]
        exact List.mem_append_left _ List.mem_cons_self
      · have ha' : a ∈ addrs todo := (mem_addrs_cons.mp ha).resolve_left hx
        obtain ⟨k, hk⟩ := ih (w := { runTimer w (ofLex x).2 with
          firing := some { now := now, expired := expired, todo := todo } }) ht rfl ha'
        refine ⟨k + 1, mem_firedAt.mpr ?_⟩
        rw [List.replicate_succ, firings_cons hstep]
        exact List.mem_append_right _ (mem_firedAt.mp hk)

/-- A timer that has not been given to the queue is not in the batch. -/
theorem not_mem_batch (hinv : Inv w) {a : Addr} {t : Timer} (ht : w.heap a = some t)
    (hnot : t.sequence ∉ w.given) : a ∉ w.batch := by
  obtain ⟨done, hgood⟩ := hinv.good
  intro hmem
  obtain ⟨u, hu, hgiven⟩ := hgood.held.held a hmem
  rw [ht] at hu
  cases hu
  exact hnot hgiven

/-- The timer at `a` waits for its `addTimerInLoop`. -/
def Waits (w : World) (a : Addr) (t : Timer) : Prop := w.heap a = some t ∧ t.sequence ∉ w.given

/-- A batch that is being fired can be brought to its end. -/
theorem exists_drained (hinv : Inv w) {a : Addr} {t : Timer} (hwaits : Waits w a t) :
    ∃ (more : List Action) (u : World), run step w more = some u ∧ u.firing = none ∧ Inv u ∧
      Waits u a t ∧ ∀ now clock, .handleRead now clock ∉ more := by
  cases hfiring : w.firing with
  | none => exact ⟨[], w, rfl, hfiring, hinv, hwaits, fun _ _ => List.not_mem_nil⟩
  | some f =>
      obtain ⟨now, expired, todo⟩ := f
      induction todo generalizing w with
      | nil =>
          have hstep : step w (.finishRead 0) = some (reset
              { w with callingExpiredTimers := false, firing := none } expired now 0) := by
            simp only [step, hfiring]
          have hinv' := step_inv hinv hstep
          have hbatch := not_mem_batch hinv hwaits.1 hwaits.2
          simp only [Inv, hfiring] at hinv
          obtain ⟨ran, -, hgood⟩ := hinv
          obtain ⟨hnone, hgiven, -⟩ := reset_rest
            { w with callingExpiredTimers := false, firing := none } expired now 0
          refine ⟨[.finishRead 0], _, run_cons_eq_some.mpr ⟨_, hstep, rfl⟩, hnone, hinv', ⟨?_, ?_⟩,
            by simp⟩
          · -- `reset` leaves the timers outside the batch alone
            rw [World.batch, hfiring, Option.elim_some] at hbatch
            rw [reset, armNext_heap, foldl_resetTimer_heap hgood.held.nodup, if_neg hbatch]
            exact hwaits.1
          · rw [hgiven]
            exact hwaits.2
      | cons x todo ih =>
          have hstep : step w .runNext = some { runTimer w (ofLex x).2 with
              firing := some { now := now, expired := expired, todo := todo } } := by
            simp only [step, hfiring]
          obtain ⟨more, u, hrun, hrest, hinv', hwaits', hreads⟩ := ih (step_inv hinv hstep) hwaits rfl
          exact ⟨.runNext :: more, u, run_cons_eq_some.mpr ⟨_, hstep, hrun⟩, hrest, hinv', hwaits',
            fun n c hmem => (List.mem_cons.mp hmem).elim (by simp) (hreads n c)⟩

theorem addTimerInLoop_given (w : World) (a : Addr) (clock : DateTime) :
    (addTimerInLoop w a clock).given = w.given ++ [(w.timer a).sequence] := by
  simp only [addTimerInLoop]
  split <;> rfl

/-- An idle queue that has the timer at `a` fires it when its time has come. -/
theorem fires_of_given (hinv : Inv w) (hidle : w.firing = none) {a : Addr} {t : Timer}
    (ht : w.heap a = some t) (hgiven : t.sequence ∈ w.given) :
    ∃ k, t.expiration ∈ firedAt t.sequence w
      (.handleRead t.expiration 0 :: List.replicate k .runNext) := by
  have hstep : step w (.handleRead t.expiration 0) = some (handleRead w t.expiration 0) := by
    simp only [step, if_pos hidle]
  have heq := handleRead_eq hinv hidle t.expiration 0
  simp only [Inv, hidle] at hinv
  have hmax := (hinv.alive.made a t ht).2.1
  -- Its entry is below the sentry
  have hmem : toLex (t.expiration, a) ∈ below w.timers (toLex (t.expiration, UINTPTR_MAX)) := by
    rw [mem_below]
    refine ⟨(hinv.agree.timers _).mpr ⟨t, ⟨ht, hgiven, List.not_mem_nil⟩, rfl⟩, ?_⟩
    exact Prod.Lex.toLex_lt_toLex.mpr (.inr ⟨rfl, hmax⟩)
  have hfired : (handleRead w t.expiration 0).firing = some
      { now := t.expiration
        expired := below w.timers (toLex (t.expiration, UINTPTR_MAX))
        todo := below w.timers (toLex (t.expiration, UINTPTR_MAX)) } := by rw [heq]
  have hheap : (handleRead w t.expiration 0).heap a = some t := by
    rw [heq]
    exact ht
  obtain ⟨k, hk⟩ := fires_of_todo hfired (List.mem_map_of_mem hmem) hheap
  refine ⟨k, mem_firedAt.mpr ?_⟩
  rw [firings_cons hstep]
  exact List.mem_append_right _ (mem_firedAt.mp hk)

/-- A timer that waits can be fired at its expiration, whatever the queue is doing now. -/
theorem fires_of_waits (hinv : Inv w) {a : Addr} {t : Timer} (hwaits : Waits w a t) :
    ∃ (more : List Action), (∀ now clock, .handleRead now clock ∈ more → now = t.expiration) ∧
      t.expiration ∈ firedAt t.sequence w more := by
  -- the batch to its end, then `addTimerInLoop`, then a read at the right time
  obtain ⟨more, u, hrun, hidle, hinvu, hwaitsu, hreads⟩ := exists_drained hinv hwaits
  have hawaiting : u.awaiting a = true := by
    rw [World.awaiting, hwaitsu.1, Option.any_some]
    exact decide_eq_true hwaitsu.2
  have hstep : step u (.addTimerInLoop a 0) = some (addTimerInLoop u a 0) := by
    simp only [step, if_pos hawaiting]
  have hgiven : t.sequence ∈ (addTimerInLoop u a 0).given := by
    rw [addTimerInLoop_given, timer_of hwaitsu.1]
    exact List.mem_append_right _ List.mem_cons_self
  have hheap : (addTimerInLoop u a 0).heap a = some t := by
    rw [addTimerInLoop_heap]
    exact hwaitsu.1
  obtain ⟨k, hk⟩ := fires_of_given (step_inv hinvu hstep)
    ((addTimerInLoop_firing u a 0).trans hidle) hheap hgiven
  refine ⟨more ++ .addTimerInLoop a 0 :: .handleRead t.expiration 0 :: List.replicate k .runNext,
    ?_, mem_firedAt.mpr ?_⟩
  · intro now clock hmem
    rcases List.mem_append.mp hmem with hmem | hmem
    · exact absurd hmem (hreads now clock)
    · have hread : now = t.expiration ∧ clock = 0 := by simpa using hmem
      exact hread.1
  · rw [firings_append hrun, firings_cons hstep]
    exact List.mem_append_right _ (List.mem_append_right _ (mem_firedAt.mp hk))

end TimerQueue
end Youth.Net
