/-
  Youth.Net.EventLoop.Queue

  No functor is lost, none is run twice, and none waits for the poll timeout.

  The order is an equation on the ghosts.  A `wakeup()` is left out in one case only: the
  loop thread queues from a handler, and then the swap of this round is still ahead.  The
  read of the eventfd also comes before the swap.  So a functor that waits has a positive
  counter, a thread on its way to `wakeup()`, or the swap ahead (`Inv.signalled`).
-/

import Youth.Lib.Machine
import Youth.Net.EventLoop.Basic

namespace Youth.Net
namespace EventLoop

open Youth.Lib

variable {φ : Type}

/-- The functors of the current batch that have not been called. -/
def World.rest (s : World φ) : List φ :=
  match s.phase with
  | .calling _ functors => functors
  | _ => []

/-- The loop thread swaps the queue before it polls again. -/
def Phase.swapAhead : Phase φ → Prop
  | .handling _ => True
  | .pending => True
  | _ => False

/-- The loop thread is inside `doPendingFunctors`. -/
def Phase.inPendingFunctors : Phase φ → Prop
  | .pending => True
  | .calling _ _ => True
  | _ => False

structure Inv (s : World φ) : Prop where
  order : s.ran ++ s.rest ++ s.pendingFunctors = s.queued
  flag : s.callingPendingFunctors = true ↔ s.phase.inPendingFunctors
  own : loopThread ∈ s.waking → s.phase.inPendingFunctors
  signalled : s.pendingFunctors ≠ [] → 0 < s.eventfd ∨ s.waking ≠ [] ∨ s.phase.swapAhead

theorem Inv.init : Inv ({} : World φ) := by
  constructor <;> simp [World.rest, Phase.inPendingFunctors]

variable {s t : World φ} {tid : ThreadId} {cb : φ}

/-! ## The threads that queue -/

theorem queueInLoop_eq : queueInLoop s tid cb =
    { s with
      pendingFunctors := s.pendingFunctors ++ [cb]
      queued := s.queued ++ [cb]
      waking := s.waking ++ if tid ≠ loopThread ∨ s.callingPendingFunctors then [tid] else [] } := by
  unfold queueInLoop
  dsimp only
  split <;> simp

/-- The loop thread queues from a functor, or with the swap ahead. -/
theorem inPendingFunctors_or_swapAhead (h : s.mayCall loopThread = true) :
    s.phase.inPendingFunctors ∨ s.phase.swapAhead := by
  have huser : s.inUserCode = true := by
    simp only [World.mayCall, decide_eq_true_eq] at h
    exact h.2 trivial
  unfold World.inUserCode at huser
  split at huser
  next heq => exact .inr (heq ▸ trivial)
  next heq => exact .inl (heq ▸ trivial)
  next => cases huser

theorem queueInLoop_inv (h : Inv s) (hcall : s.mayCall tid = true) : Inv (queueInLoop s tid cb) := by
  rw [queueInLoop_eq]
  by_cases hwake : tid ≠ loopThread ∨ s.callingPendingFunctors = true
  · rw [if_pos hwake]
    refine ⟨?_, h.flag, ?_, fun _ => .inr (.inl (by simp))⟩
    · have horder := congrArg (· ++ [cb]) h.order
      simpa [World.rest] using horder
    · intro hmem
      rcases List.mem_append.mp hmem with hmem | hmem
      · exact h.own hmem
      · -- the loop thread itself: it wakes itself from a functor only
        have htid : tid = loopThread := (List.mem_singleton.mp hmem).symm
        exact h.flag.mp (hwake.resolve_left (not_not_intro htid))
  · rw [if_neg hwake, List.append_nil]
    obtain ⟨htid, hquiet⟩ := not_or.mp hwake
    rw [not_not.mp htid] at hcall
    refine ⟨?_, h.flag, h.own, fun _ => .inr (.inr ?_)⟩
    · have horder := congrArg (· ++ [cb]) h.order
      simpa [World.rest] using horder
    · exact (inPendingFunctors_or_swapAhead hcall).resolve_left fun hin => hquiet (h.flag.mpr hin)

theorem runInLoop_inv (h : Inv s) (hcall : s.mayCall tid = true) : Inv (runInLoop s tid cb) := by
  unfold runInLoop
  split
  · exact h
  · exact queueInLoop_inv h hcall

theorem wakeup_inv (h : Inv s) : Inv (wakeup s tid) :=
  ⟨h.order, h.flag, fun hmem => h.own (List.mem_of_mem_erase hmem),
    fun _ => .inl (Nat.succ_pos s.eventfd)⟩

/-! ## The loop thread -/

/-- One step of the loop thread; it is not on its way to a `wakeup()`. -/
theorem loopStep_inv {a : Action φ} (h : Inv s) (hown : loopThread ∉ s.waking)
    (hstep : loopStep s a = some t) : Inv t := by
  obtain ⟨horder, hflag, -, hsignalled⟩ := h
  unfold loopStep at hstep
  split at hstep
  next heq =>
    cases hstep
    simp only [World.rest, heq, Phase.inPendingFunctors, Phase.swapAhead] at horder hflag hsignalled
    exact ⟨horder, hflag, fun hmem => absurd hmem hown, hsignalled⟩
  next heq =>
    cases hstep
    simp only [World.rest, heq, Phase.inPendingFunctors, Phase.swapAhead] at horder hflag hsignalled
    cases hquit : s.quit
    · exact ⟨horder, hflag, fun hmem => absurd hmem hown, hsignalled⟩
    · exact ⟨horder, hflag, fun hmem => absurd hmem hown, hsignalled⟩
  next active heq =>
    split at hstep
    · cases hstep
      simp only [World.rest, heq, Phase.inPendingFunctors] at horder hflag
      exact ⟨horder, hflag, fun hmem => absurd hmem hown, fun _ => .inr (.inr trivial)⟩
    · cases hstep
  next c cs heq =>
    cases hstep
    simp only [World.rest, heq, Phase.inPendingFunctors] at horder hflag
    -- the read of the eventfd: the swap is still ahead
    cases c <;> exact ⟨horder, hflag, fun hmem => absurd hmem hown, fun _ => .inr (.inr trivial)⟩
  next heq =>
    cases hstep
    simp only [World.rest, heq] at horder
    exact ⟨horder, iff_of_true rfl trivial, fun hmem => absurd hmem hown,
      fun _ => .inr (.inr trivial)⟩
  next heq =>
    cases hstep
    simp only [World.rest, heq, Phase.inPendingFunctors] at horder hflag
    refine ⟨?_, hflag, fun hmem => absurd hmem hown, fun hne => absurd rfl hne⟩
    simpa [World.rest] using horder
  next current f fs heq =>
    cases hstep
    simp only [World.rest, heq, Phase.inPendingFunctors, Phase.swapAhead] at horder hflag hsignalled
    refine ⟨?_, hflag, fun hmem => absurd hmem hown, hsignalled⟩
    simpa [World.rest] using horder
  next current heq =>
    cases hstep
    simp only [World.rest, heq, Phase.swapAhead] at horder hsignalled
    exact ⟨horder, by simp [Phase.inPendingFunctors], fun hmem => absurd hmem hown, hsignalled⟩
  next => cases hstep

theorem step_inv {a : Action φ} (h : Inv s) (hstep : step s a = some t) : Inv t := by
  unfold step at hstep
  split at hstep
  next =>
    split at hstep
    next hcall =>
      cases hstep
      exact queueInLoop_inv h hcall
    next => cases hstep
  next =>
    split at hstep
    next hcall =>
      cases hstep
      exact runInLoop_inv h hcall
    next => cases hstep
  next =>
    split at hstep
    · cases hstep
      exact wakeup_inv h
    · cases hstep
  next =>
    cases hstep
    exact ⟨h.order, h.flag, h.own, h.signalled⟩
  next =>
    split at hstep
    · cases hstep
    next hown => exact loopStep_inv h hown hstep

end EventLoop
end Youth.Net
