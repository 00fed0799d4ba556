/-
  Youth.Net.TimerQueue.Cancel

  When `cancelInLoop` is effective.

  After it the timer is deleted, or it is in the batch being fired and remembered in
  `m_cancelingTimers`: either way it is `Silent`, provided that its own turn of the batch
  is over.  Two cases are missed: a timer whose `addTimerInLoop` is still queued is in
  neither set, and a timer of the batch that has not had its turn is run by the loop of
  `handleRead`, which does not look at `m_cancelingTimers`.  `cancelInLoop_effective_iff`
  says that these are the only ones.
-/

import Youth.Net.TimerQueue.Firing

namespace Youth.Net
namespace TimerQueue

open Youth.Lib
open Youth.Core (DateTime)

variable {w w' : World} {id : ActiveTimer}

/-- `addTimer` has made the timer of `id` in the run. -/
def Returned (actions : List Action) (id : ActiveTimer) : Prop :=
  ∃ (before after : List Action) (when_ : DateTime) (interval : ℚ) (u : World),
    actions = before ++ .newTimer id.1 when_ interval :: after ∧ run step {} before = some u ∧
      u.numCreated = id.2

/-- The timer of `id`, if it is still there, has been given to the queue and is not among
    those the current batch is still to run. -/
def Settled (w : World) (id : ActiveTimer) : Prop :=
  ∀ t, w.heap id.1 = some t → t.sequence = id.2 →
    t.sequence ∈ w.given ∧ ∀ f, w.firing = some f → id.1 ∉ addrs f.todo

/-- The timer of `id` is gone, or its turn is over and `reset` will delete it. -/
def Silent (w : World) (id : ActiveTimer) : Prop :=
  id.2 < w.numCreated ∧ ∀ b t, w.heap b = some t → t.sequence = id.2 →
    b = id.1 ∧ ∃ f, w.firing = some f ∧ b ∈ addrs f.expired ∧ b ∉ addrs f.todo ∧
      id ∈ w.cancelingTimers

/-- `m_callingExpiredTimers` is set while a batch is being fired. -/
def Calling (w : World) : Prop := w.firing.isSome = true → w.callingExpiredTimers = true

theorem step_calling {a : Action} (h : Calling w) (hsteps : Steps w a w') : Calling w' := by
  cases hsteps with
  | newTimer a when_ interval hfree hmax => exact h
  | otherTimer => exact h
  | addTimerInLoop a clock hwait =>
      unfold Calling
      rw [addTimerInLoop_firing]
      simp only [addTimerInLoop]
      split <;> exact h
  | cancelInLoop id =>
      unfold Calling
      rw [cancelInLoop_firing]
      simp only [cancelInLoop]
      split
      · exact h
      · split <;> exact h
  | handleRead now clock hidle => exact fun _ => rfl
  | runNext now expired x todo hfiring =>
      refine fun _ => h ?_
      rw [hfiring]
      rfl
  | finishRead clock now expired hfiring =>
      intro hsome
      rw [(reset_rest _ _ _ _).1] at hsome
      cases hsome

/-! ## A silent timer stays silent -/

/-- What a batch in progress keeps over a step: the rest to run only shrinks, and what is
    being cancelled stays so. -/
theorem firing_of_step {a : Action} (hsteps : Steps w a w') (hnot : ∀ clock, a ≠ .finishRead clock)
    {f : Firing} (hfiring : w.firing = some f) :
    ∃ f', w'.firing = some f' ∧ f'.expired = f.expired ∧
      (∀ b, b ∉ addrs f.todo → b ∉ addrs f'.todo) ∧ w.cancelingTimers ⊆ w'.cancelingTimers := by
  cases hsteps with
  | newTimer a when_ interval hfree hmax => exact ⟨f, hfiring, rfl, fun _ h => h, Finset.Subset.refl _⟩
  | otherTimer => exact ⟨f, hfiring, rfl, fun _ h => h, Finset.Subset.refl _⟩
  | addTimerInLoop a clock hwait =>
      refine ⟨f, (addTimerInLoop_firing w a clock).trans hfiring, rfl, fun _ h => h, ?_⟩
      simp only [addTimerInLoop]
      split <;> exact Finset.Subset.refl _
  | cancelInLoop id =>
      exact ⟨f, (cancelInLoop_firing w id).trans hfiring, rfl, fun _ h => h, cancelInLoop_canceling w id⟩
  | handleRead now clock hidle =>
      rw [hidle] at hfiring
      cases hfiring
  | runNext now expired x todo hnext =>
      rw [hnext] at hfiring
      cases hfiring
      exact ⟨⟨now, expired, todo⟩, rfl, rfl, fun b hb hmem => hb (mem_addrs_cons.mpr (.inr hmem)),
        Finset.Subset.refl _⟩
  | finishRead clock now expired hend => exact absurd rfl (hnot clock)

theorem step_silent {a : Action} (hinv : Inv w) (h : Silent w id) (hsteps : Steps w a w') :
    Silent w' id := by
  refine ⟨lt_of_lt_of_le h.1 (numCreated_le hinv hsteps), fun b u hu hseq => ?_⟩
  cases heap_of_step hinv hsteps hu with
  | made when_ interval => exact absurd hseq h.1.ne'
  | kept _ _ hu hbatch =>
      obtain ⟨hb, f, hfiring, hexpired, htodo, hcancel⟩ := h.2 b u hu hseq
      have hnot (clock : DateTime) : a ≠ .finishRead clock := by
        intro hend
        apply hbatch clock hend
        rw [World.batch, hfiring]
        exact hexpired
      obtain ⟨f', hfiring', hsame, hless, hmore⟩ := firing_of_step hsteps hnot hfiring
      exact ⟨hb, f', hfiring', hsame ▸ hexpired, hless b htodo, hmore hcancel⟩
  | restarted clock f t hfiring hb ht hrepeat hcancel =>
      -- `reset` finds the id among those being cancelled
      have hseq' : t.sequence = id.2 := hseq
      obtain ⟨hb', f, -, -, -, hmem⟩ := h.2 b t ht hseq'
      rw [hb', hseq'] at hcancel
      exact absurd hmem hcancel

/-- A silent timer is not the one whose turn it is. -/
theorem not_mem_fired (hinv : Inv w) (h : Silent w id) (a : Action) (n : DateTime) :
    (id.2, n) ∉ fired w a := by
  intro hmem
  cases a with
  | runNext =>
      simp only [fired] at hmem
      split at hmem
      next now expired x todo hfiring =>
        obtain ⟨done, hgood⟩ := hinv.good
        simp only [Inv, hfiring] at hinv
        obtain ⟨ran, hran, -⟩ := hinv
        have hx : (ofLex x).2 ∈ w.batch := by
          rw [World.batch, hfiring, Option.elim_some, hran]
          exact List.mem_map_of_mem (List.mem_append_right _ List.mem_cons_self)
        -- the timer whose turn it is would be the silent one
        obtain ⟨t, ht, -⟩ := hgood.held.held _ hx
        rw [timer_of ht, List.mem_singleton] at hmem
        obtain ⟨-, f, hfiring', -, htodo, -⟩ := h.2 _ t ht (congrArg Prod.fst hmem).symm
        rw [hfiring] at hfiring'
        cases hfiring'
        exact htodo List.mem_cons_self
      · cases hmem
  | _ => cases hmem

theorem firedAt_of_silent (hinv : Inv w) (h : Silent w id) (more : List Action) :
    firedAt id.2 w more = [] := by
  rw [List.eq_nil_iff_forall_not_mem]
  intro n hn
  rw [mem_firedAt] at hn
  induction more generalizing w with
  | nil => cases hn
  | cons a as ih =>
      cases hstep : step w a with
      | none =>
          rw [firings, hstep, Option.elim_none, List.append_nil] at hn
          exact not_mem_fired hinv h a n hn
      | some u =>
          rw [firings_cons hstep] at hn
          rcases List.mem_append.mp hn with hn | hn
          · exact not_mem_fired hinv h a n hn
          · exact ih (step_inv hinv hstep) (step_silent hinv h (steps_of_step hstep)) hn

/-! ## What `cancelInLoop` achieves -/

theorem cancelInLoop_numCreated (w : World) (id : ActiveTimer) :
    (cancelInLoop w id).numCreated = w.numCreated := by
  simp only [cancelInLoop]
  split
  · rfl
  · split <;> rfl

/-- The cases the source provides for. -/
theorem cancelInLoop_silent (hinv : Inv w) (hcalling : Calling w) (hissued : Issued w id)
    (hsettled : Settled w id) : Silent (cancelInLoop w id) id := by
  obtain ⟨done, hgood⟩ := hinv.good
  refine ⟨(cancelInLoop_numCreated w id).symm ▸ hissued.1, fun b t ht hseq => ?_⟩
  by_cases hid : id ∈ w.activeTimers
  · -- Active: the timer is deleted
    rw [cancelInLoop_active hid] at ht
    by_cases hb : b = id.1
    · rw [hb, Function.update_self] at ht
      cases ht
    · rw [Function.update_of_ne hb] at ht
      exact absurd (hissued.2 b t ht hseq) hb
  · -- Given and not active: it is in the batch, and its turn is over
    obtain ⟨hheap, -, hcancel⟩ := cancelInLoop_absent hid
    rw [hheap] at ht
    have hb := hissued.2 b t ht hseq
    subst hb
    obtain ⟨hgiven, htodo⟩ := hsettled t ht hseq
    have hbatch : id.1 ∈ w.batch := by
      by_contra hout
      exact hid ((hgood.agree.active id).mpr ⟨t, ⟨ht, hgiven, hout⟩, hseq⟩)
    rw [World.batch] at hbatch
    cases hfiring : w.firing with
    | none =>
        rw [hfiring] at hbatch
        cases hbatch
    | some f =>
        rw [hfiring] at hbatch
        refine ⟨rfl, f, (cancelInLoop_firing w id).trans hfiring, hbatch, htodo f hfiring, ?_⟩
        apply hcancel
        apply hcalling
        rw [hfiring]
        rfl

/-- The cases it misses. -/
theorem exists_fired_of_not_settled (hinv : Inv w) (h : ¬Settled w id) :
    ∃ more, firedAt id.2 (cancelInLoop w id) more ≠ [] := by
  obtain ⟨done, hgood⟩ := hinv.good
  simp only [Settled, not_forall] at h
  obtain ⟨t, ht, hseq, hmissed⟩ := h
  have hinv' : Inv (cancelInLoop w id) := step_inv (a := .cancelInLoop id) hinv rfl
  by_cases hgiven : t.sequence ∈ w.given
  · -- Its turn is still to come
    have hturn : ∃ f, w.firing = some f ∧ id.1 ∈ addrs f.todo := by
      by_contra hnone
      exact hmissed ⟨hgiven, fun f hf hmem => hnone ⟨f, hf, hmem⟩⟩
    obtain ⟨f, hfiring, htodo⟩ := hturn
    have hid : id ∉ w.activeTimers := by
      intro hid
      obtain ⟨u, ⟨-, -, hout⟩, -⟩ := (hgood.agree.active id).mp hid
      apply hout
      simp only [Inv, hfiring] at hinv
      obtain ⟨ran, hran, -⟩ := hinv
      rw [World.batch, hfiring, Option.elim_some, hran, addrs, List.map_append]
      exact List.mem_append_right _ htodo
    have hheap : (cancelInLoop w id).heap id.1 = some t := by
      rw [(cancelInLoop_absent hid).1]
      exact ht
    obtain ⟨k, hk⟩ := fires_of_todo ((cancelInLoop_firing w id).trans hfiring) htodo hheap
    rw [hseq] at hk
    exact ⟨_, List.ne_nil_of_mem hk⟩
  · -- Its `addTimerInLoop` is still to come
    have hid : id ∉ w.activeTimers := by
      intro hid
      obtain ⟨u, ⟨hu, hg, -⟩, -⟩ := (hgood.agree.active id).mp hid
      rw [ht] at hu
      cases hu
      exact hgiven hg
    obtain ⟨hheap, hsame, -⟩ := cancelInLoop_absent hid
    have hwaits : Waits (cancelInLoop w id) id.1 t := by
      rw [Waits, hheap, hsame]
      exact ⟨ht, hgiven⟩
    obtain ⟨more, -, hmore⟩ := fires_of_waits hinv' hwaits
    rw [hseq] at hmore
    exact ⟨more, List.ne_nil_of_mem hmore⟩

/-! ## Whole runs -/

theorem run_issued {actions : List Action} (hinv : Inv w) (h : Issued w id)
    (hrun : run step w actions = some w') : Issued w' id :=
  (run_invariant (I := fun u => Inv u ∧ Issued u id)
    (fun _ _ _ hu hstep => ⟨step_inv hu.1 hstep, step_issued hu.1 hu.2 (steps_of_step hstep)⟩)
    ⟨hinv, h⟩ hrun).2

theorem inv_run {actions : List Action} (hrun : run step {} actions = some w) : Inv w :=
  run_invariant (fun _ _ _ h hstep => step_inv h hstep) inv_initial hrun

theorem issued_of_returned {actions : List Action} (hrun : run step {} actions = some w)
    (hid : Returned actions id) : Issued w id := by
  obtain ⟨before, after, when_, interval, u, rfl, hbefore, hnum⟩ := hid
  have hinv := inv_run hbefore
  obtain ⟨v, hv, hrest⟩ := run_append_eq_some.mp hrun
  rw [hbefore] at hv
  cases hv
  obtain ⟨v, hstep, hafter⟩ := run_cons_eq_some.mp hrest
  have hissued : Issued v id := by
    cases steps_of_step hstep with
    | newTimer _ _ _ hfree hmax =>
        rw [show id = (id.1, u.numCreated) from Prod.ext rfl hnum.symm]
        exact withNew_issued hinv id.1 when_ interval
  exact run_issued (step_inv hinv hstep) hissued hafter

/-- **Cancelling.**  In every state of every run and for every id that `addTimer` has
    returned: after `cancelInLoop` the callback is never run again, whatever happens, iff
    the timer is settled. -/
theorem cancelInLoop_effective_iff {actions : List Action} {w : World}
    (hrun : run step {} actions = some w) {id : ActiveTimer} (hid : Returned actions id) :
    (∀ more, firedAt id.2 (cancelInLoop w id) more = []) ↔ Settled w id := by
  have hinv := inv_run hrun
  constructor
  · intro hnever
    by_contra hmissed
    obtain ⟨more, hfired⟩ := exists_fired_of_not_settled hinv hmissed
    exact hfired (hnever more)
  · intro hsettled more
    have hcalling : Calling w := run_invariant (I := Calling)
      (fun _ _ _ h hstep => step_calling h (steps_of_step hstep)) (fun hsome => by cases hsome) hrun
    exact firedAt_of_silent (step_inv (a := .cancelInLoop id) hinv rfl)
      (cancelInLoop_silent hinv hcalling (issued_of_returned hrun hid) hsettled) more

/-- A repeating timer cancelled from its own callback: settled, and silent from then on. -/
theorem cancelInLoop_effective_iff_own :
    ∃ w, run step {} [.newTimer 16 10 1, .addTimerInLoop 16 1, .handleRead 10 10, .runNext] =
        some w ∧ Settled w (16, 0) ∧ ∀ more, firedAt 0 (cancelInLoop w (16, 0)) more = [] := by
  have hsome : ((run step {} [.newTimer 16 10 1, .addTimerInLoop 16 1, .handleRead 10 10,
      .runNext]).map fun w => (w.given, w.firing.map Firing.todo)) = some ([0], some []) := by
    decide +kernel
  obtain ⟨w, hrun, hw⟩ := Option.map_eq_some_iff.mp hsome
  have hsettled : Settled w (16, 0) := by
    intro t ht hseq
    refine ⟨?_, fun f hf => ?_⟩
    · rw [hseq, show w.given = [0] from congrArg Prod.fst hw]
      exact List.mem_cons_self
    · have htodo : w.firing.map Firing.todo = some [] := congrArg Prod.snd hw
      rw [hf] at htodo
      rw [Option.some.inj htodo]
      exact List.not_mem_nil
  have hid : Returned [.newTimer 16 10 1, .addTimerInLoop 16 1, .handleRead 10 10, .runNext] (16, 0) :=
    ⟨[], _, 10, 1, {}, rfl, rfl, rfl⟩
  exact ⟨w, hrun, hsettled, (cancelInLoop_effective_iff hrun hid).mpr hsettled⟩

/-- The loop thread cancels a timer that another thread has just added: the id is in
    neither set, the queued `addTimerInLoop` comes later, and the timer fires. -/
theorem cancelInLoop_not_effective :
    ¬∀ (actions : List Action) (w : World) (id : ActiveTimer), run step {} actions = some w →
      Returned actions id → ∀ more, firedAt id.2 (cancelInLoop w id) more = [] := by
  intro h
  have hfired : firedAt 0 (cancelInLoop (World.withNew {} 16 10 0) (16, 0))
      [.addTimerInLoop 16 1, .handleRead 10 10, .runNext] = [10] := by decide +kernel
  have hnone := h [.newTimer 16 10 0] (World.withNew {} 16 10 0) (16, 0) rfl
    ⟨[], [], 10, 0, {}, rfl, rfl, rfl⟩ [.addTimerInLoop 16 1, .handleRead 10 10, .runNext]
  rw [hnone] at hfired
  cases hfired

end TimerQueue
end Youth.Net
