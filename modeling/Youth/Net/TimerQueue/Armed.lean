/-
  Youth.Net.TimerQueue.Armed

  The timerfd is armed for the timers that wait.

  `addTimerInLoop` arms it for a new earliest timer, `reset` for the earliest one after a
  batch; cancelling leaves it alone, and reading disarms it.  Between two batches it is
  armed in time for every timer in the set.  Inside one it need not be, since `reset` comes:
  only a timer whose expiration is not valid has to be covered already, because `reset`
  passes over it.  `Covered` states both.

  Two overflows break this.  The distance of an expiration from the clock may not fit in an
  `int64_t`, and then comes out on the other side; and the next expiration of a repeating
  timer may turn out negative, and `reset` takes it for none.  `Representable` rules them
  out.
-/

import Mathlib.Data.Finset.Max
import Youth.Net.TimerQueue.Firing

namespace Youth.Net
namespace TimerQueue

open Youth.Lib
open Youth.Core (DateTime int64 int64_lt int64_of_inRange)

/-- What a clock gives: a time not before the epoch, in an `int64_t`. -/
def ClockTime (t : ℤ) : Prop := 0 ≤ t ∧ t < 0x8000000000000000

/-- The times of an action: clocks where they are read, and an `int64_t` for a new timer. -/
def Action.Timed : Action → Prop
  | .newTimer _ when_ _ => -0x8000000000000000 ≤ when_ ∧ when_ < 0x8000000000000000
  | .addTimerInLoop _ clock => ClockTime clock
  | .handleRead now clock => ClockTime now ∧ ClockTime clock
  | .finishRead clock => ClockTime clock
  | _ => True

/-- Nothing that is computed for the timerfd overflows: a new earliest expiration is at most
    `2 ^ 63` microseconds before the clock, and a repeating timer of the batch that was not
    cancelled gets a valid expiration. -/
def Representable (w : World) : Action → Prop
  | .addTimerInLoop a clock =>
    (∀ x ∈ w.timers, (w.timer a).expiration < (ofLex x).1) →
      -0x8000000000000000 ≤ (w.timer a).expiration - clock
  | .finishRead _ =>
    ∀ f ∈ w.firing, ∀ b ∈ addrs f.expired, ∀ t ∈ w.heap b, t.repeat_ = true →
      (b, t.sequence) ∉ w.cancelingTimers → 0 < (t.restart f.now).expiration
  | _ => True

instance (t : ℤ) : Decidable (ClockTime t) :=
  inferInstanceAs (Decidable (0 ≤ t ∧ t < 0x8000000000000000))

instance : DecidablePred Action.Timed
  | .newTimer _ when_ _ => inferInstanceAs (Decidable
      (-0x8000000000000000 ≤ when_ ∧ when_ < 0x8000000000000000))
  | .addTimerInLoop _ clock => inferInstanceAs (Decidable (ClockTime clock))
  | .handleRead now clock => inferInstanceAs (Decidable (ClockTime now ∧ ClockTime clock))
  | .finishRead clock => inferInstanceAs (Decidable (ClockTime clock))
  | .otherTimer | .cancelInLoop _ | .runNext => isTrue trivial

instance (w : World) : DecidablePred (Representable w)
  | .addTimerInLoop _ _ => inferInstanceAs (Decidable (_ → _))
  | .finishRead _ => inferInstanceAs (Decidable (∀ f ∈ w.firing, ∀ b ∈ addrs f.expired,
      ∀ t ∈ w.heap b, t.repeat_ = true → (b, t.sequence) ∉ w.cancelingTimers →
        0 < (t.restart f.now).expiration))
  | .newTimer _ _ _ | .otherTimer | .cancelInLoop _ | .handleRead _ _ | .runNext => isTrue trivial

/-- The timerfd goes off not later than at `t` or, if that is later, 100 microseconds after it was
    armed. -/
def World.covers (w : World) (t : ℤ) : Prop :=
  ∃ deadline : ℤ, w.timerfd = some deadline ∧ deadline ≤ max t (w.armedAt + 100)

/-- No timer is forgotten: with timers in the set the timerfd is armed, or has expired and not
    been read, and its deadline covers the first expiration. -/
def World.Armed (w : World) : Prop :=
  ∀ h : w.timers.Nonempty, w.covers (ofLex (w.timers.min' h)).1

/-- The invariant.  While a batch is fired, `reset` is still to come; it will not arm the
    timerfd for a time that is not valid. -/
structure Covered (w : World) : Prop where
  expirations : ∀ a t, w.heap a = some t → t.expiration < 0x8000000000000000
  armedAt : 0 ≤ w.armedAt
  timers : ∀ x ∈ w.timers, (w.firing.isSome = true → (ofLex x).1 ≤ 0) → w.covers (ofLex x).1

variable {w w' : World}

/-- The larger of two times, and times that are later, are covered too. -/
theorem World.covers.mono {s t : ℤ} (h : w.covers s) (hst : s ≤ max t (w.armedAt + 100)) :
    w.covers t := by
  obtain ⟨deadline, hd, hle⟩ := h
  exact ⟨deadline, hd, by omega⟩

/-- Arming for an expiration covers it, and whatever is not earlier. -/
theorem resetTimerfd_covers (w : World) {expiration clock t : ℤ} (hclock : ClockTime clock)
    (hlow : -0x8000000000000000 ≤ expiration - clock) (hhigh : expiration < 0x8000000000000000)
    (ht : expiration ≤ t) : (w.resetTimerfd expiration clock).covers t := by
  obtain ⟨h0, -⟩ := hclock
  refine ⟨clock + howMuchTimeFromNow expiration clock, rfl, ?_⟩
  show clock + max 100 (int64 (expiration - clock)) ≤ max t (clock + 100)
  rw [int64_of_inRange hlow (by omega)]
  omega

/-! ## Steps -/

theorem covers_congr (hfd : w'.timerfd = w.timerfd) (harmed : w'.armedAt = w.armedAt) (t : ℤ) :
    w'.covers t ↔ w.covers t := by
  unfold World.covers
  rw [hfd, harmed]

/-- Steps that leave the timerfd alone and add no timer to the set. -/
theorem Covered.of_same (h : Covered w)
    (hheap : ∀ a t, w'.heap a = some t → t.expiration < 0x8000000000000000)
    (htimers : w'.timers ⊆ w.timers) (hfd : w'.timerfd = w.timerfd)
    (harmed : w'.armedAt = w.armedAt) (hfiring : w'.firing.isSome = w.firing.isSome) : Covered w' := by
  refine ⟨hheap, harmed ▸ h.armedAt, fun x hx hcase => ?_⟩
  rw [hfiring] at hcase
  exact (covers_congr hfd harmed _).mpr (h.timers x (htimers hx) hcase)

/-- What the heap holds after a step still fits. -/
theorem expirations_of_step (hinv : Inv w) (h : Covered w) {a : Action} (ha : a.Timed)
    (hsteps : Steps w a w') {b : Addr} {u : Timer} (hu : w'.heap b = some u) :
    u.expiration < 0x8000000000000000 := by
  cases heap_of_step hinv hsteps hu with
  | made when_ interval => exact ha.2
  | kept _ _ hu _ => exact h.expirations b u hu
  | restarted clock f t hfiring hb ht hrepeat hcancel =>
      simp only [Timer.restart, hrepeat, if_true]
      exact int64_lt _

theorem addTimerInLoop_timers (w : World) (a : Addr) (clock : DateTime) :
    (addTimerInLoop w a clock).timers =
      Insert.insert (toLex ((w.timer a).expiration, a)) w.timers := by
  simp only [addTimerInLoop]
  split <;> rfl

/-- The timerfd is armed for a timer before all others, and else left alone. -/
theorem addTimerInLoop_timerfd (w : World) (a : Addr) (clock : DateTime) :
    ((∀ x ∈ w.timers, (w.timer a).expiration < (ofLex x).1) ∧
        ∀ t, (addTimerInLoop w a clock).covers t ↔
          (w.resetTimerfd (w.timer a).expiration clock).covers t) ∧
        (addTimerInLoop w a clock).armedAt = clock ∨
      (∃ x ∈ w.timers, (ofLex x).1 ≤ (w.timer a).expiration) ∧
        (∀ t, (addTimerInLoop w a clock).covers t ↔ w.covers t) ∧
        (addTimerInLoop w a clock).armedAt = w.armedAt := by
  by_cases hearliest : ∀ x ∈ w.timers, (w.timer a).expiration < (ofLex x).1
  · have hflag : (insert { w with given := w.given ++ [(w.timer a).sequence] } a).2 = true :=
      decide_eq_true hearliest
    rw [addTimerInLoop, if_pos hflag]
    exact .inl ⟨⟨hearliest, fun _ => Iff.rfl⟩, rfl⟩
  · have hflag : ¬ (insert { w with given := w.given ++ [(w.timer a).sequence] } a).2 = true := by
      intro htrue
      exact hearliest (of_decide_eq_true htrue)
    rw [addTimerInLoop, if_neg hflag]
    push Not at hearliest
    exact .inr ⟨hearliest, fun _ => Iff.rfl, rfl⟩

theorem addTimerInLoop_covered (h : Covered w) {a : Addr} {clock : ℤ} (hclock : ClockTime clock)
    (hrep : Representable w (.addTimerInLoop a clock))
    (hfits : (w.timer a).expiration < 0x8000000000000000) : Covered (addTimerInLoop w a clock) := by
  have hheap := addTimerInLoop_heap w a clock
  have htimers := addTimerInLoop_timers w a clock
  have hfiring := addTimerInLoop_firing w a clock
  rcases addTimerInLoop_timerfd w a clock with
    ⟨⟨hearliest, hcovers⟩, harmed⟩ | ⟨⟨y, hy, hle⟩, hcovers, harmed⟩
  · -- armed for the new timer, and the others come after it
    refine ⟨hheap ▸ h.expirations, harmed.symm ▸ hclock.1, fun x hx _ => ?_⟩
    rw [htimers, Finset.mem_insert] at hx
    refine (hcovers _).mpr (resetTimerfd_covers w hclock (hrep hearliest) hfits ?_)
    rcases hx with rfl | hx
    · exact le_rfl
    · exact (hearliest x hx).le
  · refine ⟨hheap ▸ h.expirations, harmed ▸ h.armedAt, fun x hx hcase => ?_⟩
    rw [htimers, Finset.mem_insert] at hx
    rw [hfiring] at hcase
    refine (hcovers _).mpr ?_
    rcases hx with rfl | hx
    · -- covered with the timer before it
      have hcase' : w.firing.isSome = true → (ofLex y).1 ≤ 0 := fun hbusy => hle.trans (hcase hbusy)
      exact (h.timers y hy hcase').mono (le_max_of_le_left hle)
    · exact h.timers x hx hcase

theorem cancelInLoop_timers (w : World) (id : ActiveTimer) :
    (cancelInLoop w id).timers ⊆ w.timers ∧ (cancelInLoop w id).timerfd = w.timerfd ∧
      (cancelInLoop w id).armedAt = w.armedAt := by
  simp only [cancelInLoop]
  split
  · exact ⟨Finset.erase_subset _ _, rfl, rfl⟩
  · split <;> exact ⟨Finset.Subset.refl _, rfl, rfl⟩

/-- What stays behind when a batch is taken expires after `now`, so all of it is valid. -/
theorem handleRead_covered (hinv : Inv w) (h : Covered w) (hidle : w.firing = none) {now clock : ℤ}
    (hnow : ClockTime now) : Covered (handleRead w now clock) := by
  rw [handleRead_eq hinv hidle]
  refine ⟨h.expirations, h.armedAt, fun x hx hcase => ?_⟩
  obtain ⟨hmem, hge⟩ := Finset.mem_filter.mp hx
  simp only [Inv, hidle] at hinv
  have hlt : now < (ofLex x).1 := lt_of_not_below hinv.agree hinv.alive now x hmem hge
  exact absurd (hcase rfl) (not_le.mpr (lt_of_le_of_lt hnow.1 hlt))

/-! ## The end of a batch -/

/-- The head of a set is its least element. -/
theorem head_le {s : Finset Entry} {x y : Entry} (hy : (inOrder s).head? = some y) (hx : x ∈ s) :
    (ofLex y).1 ≤ (ofLex x).1 := by
  obtain ⟨rest, hrest⟩ := List.head?_eq_some_iff.mp hy
  have hsorted := pairwise_inOrder s
  have hmem : x ∈ inOrder s := mem_inOrder.mpr hx
  rw [hrest] at hsorted hmem
  rcases List.mem_cons.mp hmem with rfl | hmem
  · exact le_rfl
  · exact Prod.Lex.monotone_fst _ _ (List.rel_of_pairwise_cons hsorted hmem)

/-- `reset` arms for the first timer.  If its time is not valid, the timerfd has to be armed
    for it already, and is then armed in time for everything. -/
theorem armNext_covered (hgood : Good w [] []) {clock : ℤ}
    (hclock : ClockTime clock)
    (hfits : ∀ a t, w.heap a = some t → t.expiration < 0x8000000000000000) (harmed : 0 ≤ w.armedAt)
    (hinvalid : ∀ x ∈ w.timers, (ofLex x).1 ≤ 0 → w.covers (ofLex x).1) :
    Covered (armNext w clock) := by
  unfold armNext
  split
  next hempty =>
    refine ⟨hfits, harmed, fun x hx _ => ?_⟩
    rw [List.head?_eq_none_iff] at hempty
    exact absurd (hempty ▸ mem_inOrder.mpr hx) List.not_mem_nil
  next y hy =>
    obtain ⟨t, ⟨ht, -, -⟩, hexp⟩ := (hgood.agree.timers y).mp (mem_inOrder.mp (List.mem_of_head? hy))
    simp only [touch_of ht, timer_of ht]
    split
    next hvalid =>
      refine ⟨hfits, hclock.1, fun x hx _ => ?_⟩
      have hlow : -0x8000000000000000 ≤ t.expiration - clock := by
        have hlt := hclock.2
        have hpos : (0 : ℤ) < t.expiration := hvalid
        show (-0x8000000000000000 : ℤ) ≤ (t.expiration : ℤ) - clock
        omega
      exact resetTimerfd_covers w hclock hlow (hfits _ t ht) (hexp ▸ head_le hy hx)
    next hnot =>
      -- what is armed for an invalid time goes off 100 microseconds after the arming
      refine ⟨hfits, harmed, fun x hx _ => ?_⟩
      have hle : (ofLex y).1 ≤ (0 : ℤ) := hexp ▸ not_lt.mp hnot
      refine (hinvalid y (mem_inOrder.mp (List.mem_of_head? hy)) hle).mono ?_
      exact le_max_of_le_left (head_le hy hx)

/-- The loop of `reset` makes no timer with an invalid time, so those in the set have been there
    before. -/
theorem finishRead_covered (hinv : Inv w) (h : Covered w) {now : DateTime} {expired : List Entry}
    (hfiring : w.firing = some { now := now, expired := expired, todo := [] }) {clock : ℤ}
    (hclock : ClockTime clock) (hrep : Representable w (.finishRead clock)) :
    Covered (reset { w with callingExpiredTimers := false, firing := none } expired now clock) := by
  have hfits (b : Addr) (u : Timer) := expirations_of_step hinv h (a := .finishRead clock) hclock
    (.finishRead clock now expired hfiring) (b := b) (u := u)
  simp only [Inv, hfiring] at hinv
  obtain ⟨ran, hran, hgood⟩ := hinv
  rw [List.append_nil] at hran
  rw [← hran] at hgood
  have hdone : Good { w with callingExpiredTimers := false, firing := none }
      (addrs expired) (addrs expired) := hgood.of_same rfl
  obtain ⟨-, hgiven, -, hfd, harmed⟩ := foldl_resetTimer_rest
    { w with callingExpiredTimers := false, firing := none } expired now
  have hreset := foldl_resetTimer_good hdone now
  rw [reset, armNext_heap] at hfits
  refine armNext_covered hreset hclock hfits (harmed.symm ▸ h.armedAt) fun x hx hinvalid => ?_
  refine (covers_congr (w := w) hfd harmed _).mpr (h.timers x ?_ fun _ => hinvalid)
  obtain ⟨u, ⟨hu, hg, -⟩, hexp⟩ := (hreset.agree.timers x).mp hx
  rw [foldl_resetTimer_heap hgood.held.nodup] at hu
  by_cases hb : (ofLex x).2 ∈ addrs expired
  · -- put back by the loop, with a valid time
    rw [if_pos hb] at hu
    obtain ⟨t, ht, hu⟩ := Option.bind_eq_some_iff.mp hu
    split at hu
    next hrepeat =>
      cases hu
      have hpos := hrep _ hfiring _ hb t ht hrepeat.1 hrepeat.2
      exact absurd hinvalid (not_le.mpr (hexp ▸ hpos))
    · cases hu
  · rw [if_neg hb] at hu
    exact (hgood.agree.timers x).mpr ⟨u, ⟨hu, hgiven ▸ hg, hb⟩, hexp⟩

/-! ## Whole runs -/

theorem step_covered {a : Action} (hinv : Inv w) (h : Covered w) (ha : a.Timed)
    (hrep : Representable w a) (hstep : step w a = some w') : Covered w' := by
  have hsteps := steps_of_step hstep
  have hfits (b : Addr) (u : Timer) := expirations_of_step hinv h ha hsteps (b := b) (u := u)
  cases hsteps with
  | newTimer a when_ interval hfree hmax => exact h.of_same hfits (Finset.Subset.refl _) rfl rfl rfl
  | otherTimer => exact h.of_same hfits (Finset.Subset.refl _) rfl rfl rfl
  | addTimerInLoop a clock hwait =>
      obtain ⟨t, ht, -⟩ := exists_of_awaiting hwait
      exact addTimerInLoop_covered h ha hrep (timer_of ht ▸ h.expirations a t ht)
  | cancelInLoop id =>
      obtain ⟨htimers, hfd, harmed⟩ := cancelInLoop_timers w id
      exact h.of_same hfits htimers hfd harmed (by rw [cancelInLoop_firing])
  | handleRead now clock hidle => exact handleRead_covered hinv h hidle ha.1
  | runNext now expired x todo hfiring =>
      exact h.of_same hfits (Finset.Subset.refl _) rfl rfl (by rw [hfiring]; rfl)
  | finishRead clock now expired hfiring => exact finishRead_covered hinv h hfiring ha hrep

theorem covered_initial : Covered {} := by
  refine ⟨fun a t ht => ?_, le_rfl, fun x hx => ?_⟩
  · cases ht
  · exact absurd hx (Finset.notMem_empty x)

/-- **No timer is forgotten.**  Between two batches the timerfd is armed in time for the first
    timer, in every run in which nothing that is computed for it overflows. -/
theorem armed_run {actions : List Action} {w : World} (hrun : run step {} actions = some w)
    (htimed : ∀ a ∈ actions, a.Timed) (hrep : Along step Representable {} actions)
    (hidle : w.firing = none) : w.Armed := by
  have hboth : Inv w ∧ Covered w := by
    refine run_invariant_along (I := fun w => Inv w ∧ Covered w) ?_
      ⟨inv_initial, covered_initial⟩ hrun (hrep.and_forall htimed)
    rintro u a v ⟨hinv, h⟩ ⟨ha, hr⟩ hstep
    exact ⟨step_inv hinv hstep, step_covered hinv h ha hr hstep⟩
  intro hne
  refine hboth.2.timers _ (w.timers.min'_mem hne) fun hbusy => ?_
  rw [hidle] at hbusy
  cases hbusy

/-- The callbacks of a batch add a timer before the epoch and one in the past. -/
def lateActions : List Action :=
  [.newTimer 16 10 1, .addTimerInLoop 16 1, .newTimer 32 5 0, .addTimerInLoop 32 2,
    .handleRead 110 110, .runNext, .newTimer 48 (-7) 0, .addTimerInLoop 48 120, .cancelInLoop (16, 0),
    .newTimer 64 90 0, .addTimerInLoop 64 130, .runNext, .finishRead 140]

theorem armed_run_lateActions :
    ∃ w, run step {} lateActions = some w ∧ w.timerfd = some 220 ∧ w.Armed := by
  have hfields : ((run step {} lateActions).map fun w => (w.timerfd, w.firing)) =
      some (some 220, none) := by decide +kernel
  obtain ⟨w, hrun, hfields⟩ := Option.map_eq_some_iff.mp hfields
  exact ⟨w, hrun, congrArg Prod.fst hfields, armed_run hrun (by decide +kernel) (by decide +kernel)
    (congrArg Prod.snd hfields)⟩

/-- A timer that is to repeat every `10 ^ 13` seconds: its next expiration is negative, and
    `reset` does not arm the timerfd, which the read has disarmed. -/
def endlessActions : List Action :=
  [.newTimer 16 (addSeconds 1000 10000000000000) 10000000000000, .addTimerInLoop 16 1000,
    .handleRead 1100 1100, .runNext, .finishRead 1200]

/-- A timer for the earliest time there is: its distance from the clock comes out as the largest
    one. -/
def ancientActions : List Action :=
  [.newTimer 16 (-0x8000000000000000) 0, .addTimerInLoop 16 1]

theorem not_armed_overflow :
    (∃ w, run step {} endlessActions = some w ∧ (∀ a ∈ endlessActions, a.Timed) ∧
      w.firing = none ∧ w.timerfd = none ∧ ¬ w.Armed) ∧
    ∃ w, run step {} ancientActions = some w ∧ (∀ a ∈ ancientActions, a.Timed) ∧
      w.firing = none ∧ w.timerfd = some 0x8000000000000000 ∧ ¬ w.Armed := by
  constructor
  · have hfields : ((run step {} endlessActions).map fun w => (w.timers.card, w.timerfd, w.firing)) =
        some (1, none, none) := by decide +kernel
    obtain ⟨w, hrun, hfields⟩ := Option.map_eq_some_iff.mp hfields
    have hcard : w.timers.card = 1 := congrArg (fun p => p.1) hfields
    have hfd : w.timerfd = none := congrArg (fun p => p.2.1) hfields
    have hidle : w.firing = none := congrArg (fun p => p.2.2) hfields
    refine ⟨w, hrun, by decide +kernel, hidle, hfd, fun harmed => ?_⟩
    obtain ⟨deadline, hd, -⟩ := harmed (Finset.card_pos.mp (by omega))
    exact absurd (hfd.symm.trans hd) (by simp)
  · have hfields : ((run step {} ancientActions).map fun w =>
        (w.timers, w.timerfd, w.armedAt, w.firing)) =
        some ({toLex (-0x8000000000000000, 16)}, some 0x8000000000000000, 1, none) := by
      decide +kernel
    obtain ⟨w, hrun, hfields⟩ := Option.map_eq_some_iff.mp hfields
    have htimers : w.timers = {toLex (-0x8000000000000000, 16)} := congrArg (fun p => p.1) hfields
    have hfd : w.timerfd = some 0x8000000000000000 := congrArg (fun p => p.2.1) hfields
    have harmedAt : w.armedAt = 1 := congrArg (fun p => p.2.2.1) hfields
    have hidle : w.firing = none := congrArg (fun p => p.2.2.2) hfields
    refine ⟨w, hrun, by decide +kernel, hidle, hfd, fun harmed => ?_⟩
    have hne : w.timers.Nonempty := htimers ▸ Finset.singleton_nonempty _
    obtain ⟨deadline, hd, hle⟩ := harmed hne
    have hmin : w.timers.min' hne = toLex (-0x8000000000000000, 16) :=
      Finset.mem_singleton.mp (htimers ▸ w.timers.min'_mem hne)
    rw [hfd] at hd
    cases hd
    rw [hmin, harmedAt] at hle
    exact absurd hle (by decide)

end TimerQueue
end Youth.Net
