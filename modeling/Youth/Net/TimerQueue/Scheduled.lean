/-
  Youth.Net.TimerQueue.Scheduled

  When a timer fires that nobody cancels.

  That depends on its expiration and on the times of the reads, and on nothing else:
  `schedule` computes it from the two.  A timer goes through the stages `waiting`, `turn`
  and `past`, and back to `waiting` if it repeats; `step_tracks` says what each step does
  to it, whatever becomes of the other timers and of the addresses that they leave.
-/

import Youth.Net.TimerQueue.Cancel
import Youth.Net.TimerQueue.Early

namespace Youth.Net
namespace TimerQueue

open Youth.Lib
open Youth.Core (DateTime)

/-- The times at which a timer fires that expires at `expiration`, by those of the reads. -/
def schedule (t : Timer) : DateTime → List DateTime → List DateTime
  | _, [] => []
  | expiration, now :: nows =>
    if expiration ≤ now then
      now :: if t.repeat_ then schedule t (addSeconds now t.interval) nows else []
    else schedule t expiration nows

/-- The times of the reads of a run. -/
def readOf : Action → List DateTime
  | .handleRead now _ => [now]
  | _ => []

def reads (as : List Action) : List DateTime := as.flatMap readOf

/-- Where a timer is that was given to the queue. -/
inductive Stage
  | waiting (expiration : DateTime)
  /-- In the batch of `now`, and not yet run. -/
  | turn (now : DateTime)
  /-- Run, and not yet restarted or deleted. -/
  | past (now : DateTime)
  | gone
  deriving DecidableEq

/-- What comes behind the firing at `now`. -/
def afterwards (t : Timer) (now : DateTime) (nows : List DateTime) : List DateTime :=
  if t.repeat_ then schedule t (addSeconds now t.interval) nows else []

def outcome (t : Timer) (nows : List DateTime) : Stage → List DateTime
  | .waiting expiration => schedule t expiration nows
  | .turn now => now :: afterwards t now nows
  | .past now => afterwards t now nows
  | .gone => []

/-- The timer `t`, which was made at `a`, is at this stage. -/
inductive Tracks (w : World) (a : Addr) (t : Timer) : Stage → Prop
  | waiting (expiration : DateTime) (hheap : w.heap a = some { t with expiration := expiration })
      (hgiven : t.sequence ∈ w.given) (hout : a ∉ w.batch) : Tracks w a t (.waiting expiration)
  | turn (f : Firing) (expiration : DateTime)
      (hheap : w.heap a = some { t with expiration := expiration }) (hgiven : t.sequence ∈ w.given)
      (hfiring : w.firing = some f) (hexpired : a ∈ addrs f.expired) (htodo : a ∈ addrs f.todo)
      (hcancel : (a, t.sequence) ∉ w.cancelingTimers) : Tracks w a t (.turn f.now)
  | past (f : Firing) (expiration : DateTime)
      (hheap : w.heap a = some { t with expiration := expiration }) (hgiven : t.sequence ∈ w.given)
      (hfiring : w.firing = some f) (hexpired : a ∈ addrs f.expired) (htodo : a ∉ addrs f.todo)
      (hcancel : (a, t.sequence) ∉ w.cancelingTimers) : Tracks w a t (.past f.now)
  | gone (hnone : ∀ b u, w.heap b = some u → u.sequence ≠ t.sequence) : Tracks w a t .gone

variable {w w' : World} {a : Addr} {t : Timer} {s : Stage}

/-! ## Steps -/

/-- A step that leaves the timer and the batch alone. -/
theorem Tracks.of_same (h : Tracks w a t s)
    (hheap : ∀ u, w.heap a = some u → u.sequence = t.sequence → w'.heap a = some u)
    (hnone : ∀ b u, w'.heap b = some u → w.heap b = some u ∨ u.sequence ≠ t.sequence)
    (hgiven : t.sequence ∈ w.given → t.sequence ∈ w'.given) (hfiring : w'.firing = w.firing)
    (hcancel : (a, t.sequence) ∉ w.cancelingTimers → (a, t.sequence) ∉ w'.cancelingTimers) :
    Tracks w' a t s := by
  cases h with
  | waiting expiration hold hgive hout =>
      refine .waiting expiration (hheap _ hold rfl) (hgiven hgive) ?_
      rw [World.batch, hfiring]
      exact hout
  | turn f expiration hold hgive hf hexpired htodo hc =>
      exact .turn f expiration (hheap _ hold rfl) (hgiven hgive) (hfiring.trans hf) hexpired htodo
        (hcancel hc)
  | past f expiration hold hgive hf hexpired htodo hc =>
      exact .past f expiration (hheap _ hold rfl) (hgiven hgive) (hfiring.trans hf) hexpired htodo
        (hcancel hc)
  | gone hgone =>
      refine .gone fun b u hu => ?_
      exact (hnone b u hu).elim (hgone b u) id

/-- Another timer is cancelled. -/
theorem cancel_tracks (hinv : Inv w) (h : Tracks w a t s) {id : ActiveTimer}
    (hid : id ≠ (a, t.sequence)) : Tracks (cancelInLoop w id) a t s := by
  obtain ⟨done, hgood⟩ := hinv.good
  have hcanceling : (a, t.sequence) ∉ w.cancelingTimers →
      (a, t.sequence) ∉ (cancelInLoop w id).cancelingTimers := by
    intro hnot
    simp only [cancelInLoop]
    split
    · exact hnot
    · split
      · rw [show ∀ u : World, u.checkSizes.cancelingTimers = u.cancelingTimers from fun _ => rfl]
        exact fun hmem => (Finset.mem_insert.mp hmem).elim (fun heq => hid heq.symm) hnot
      · exact hnot
  have hgiven : (cancelInLoop w id).given = w.given := by
    simp only [cancelInLoop]
    split
    · rfl
    · split <;> rfl
  by_cases hactive : id ∈ w.activeTimers
  · apply h.of_same
    · intro u hu hseq
      rw [cancelInLoop_active hactive, Function.update_of_ne ?_]
      · exact hu
      · -- the active timer at this address is the one with the number
        intro heq
        obtain ⟨v, ⟨hv, -, -⟩, hvseq⟩ := (hgood.agree.active id).mp hactive
        rw [← heq, hu] at hv
        cases hv
        exact hid (Prod.ext heq.symm (hvseq.symm.trans hseq))
    · intro b u hu
      rw [cancelInLoop_active hactive] at hu
      by_cases hb : b = id.1
      · rw [hb, Function.update_self] at hu
        cases hu
      · rw [Function.update_of_ne hb] at hu
        exact .inl hu
    · rw [hgiven]
      exact fun hmem => hmem
    · exact cancelInLoop_firing w id
    · exact hcanceling
  · obtain ⟨hheap, -, -⟩ := cancelInLoop_absent hactive
    apply h.of_same
    · rw [hheap]
      exact fun u hu _ => hu
    · rw [hheap]
      exact fun b u hu => .inl hu
    · rw [hgiven]
      exact fun hmem => hmem
    · exact cancelInLoop_firing w id
    · exact hcanceling

/-- `handleRead` takes the timer into the batch, if it has expired. -/
theorem handleRead_tracks (hinv : Inv w) (h : Tracks w a t s) (hidle : w.firing = none)
    (now clock : DateTime) :
    ∃ s', Tracks (handleRead w now clock) a t s' ∧
      ∀ nows, outcome t nows s' = outcome t (now :: nows) s := by
  rw [handleRead_eq hinv hidle]
  simp only [Inv, hidle] at hinv
  cases h with
  | waiting expiration hheap hgiven hout =>
      have hmax := (hinv.alive.made a _ hheap).2.1
      have hkept : Kept w [] a { t with expiration := expiration } :=
        ⟨hheap, hgiven, List.not_mem_nil⟩
      have hin : toLex (expiration, a) ∈ w.timers := (hinv.agree.timers _).mpr ⟨_, hkept, rfl⟩
      have hiff : a ∈ addrs (below w.timers (toLex (now, UINTPTR_MAX))) ↔ expiration ≤ now := by
        constructor
        · intro hmem
          obtain ⟨x, hx, hxa⟩ := List.mem_map.mp hmem
          obtain ⟨hxin, hlt⟩ := mem_below.mp hx
          rw [(hinv.agree.timers_addr hheap hxin).mp hxa] at hlt
          rcases Prod.Lex.lt_iff.mp hlt with hlt | ⟨heq, -⟩
          · exact le_of_lt hlt
          · exact le_of_eq heq
        · intro hle
          have hlt : toLex (expiration, a) < toLex (now, UINTPTR_MAX) := by
            apply Prod.Lex.lt_iff.mpr
            exact (lt_or_eq_of_le hle).imp_right fun heq => ⟨heq, hmax⟩
          exact List.mem_map.mpr ⟨_, mem_below.mpr ⟨hin, hlt⟩, rfl⟩
      by_cases hle : expiration ≤ now
      · have hmem := hiff.mpr hle
        refine ⟨.turn now, .turn ⟨now, _, _⟩ expiration hheap hgiven rfl hmem hmem ?_, fun nows => ?_⟩
        · exact Finset.notMem_empty _
        · rw [outcome, outcome, schedule, if_pos hle]
          rfl
      · refine ⟨.waiting expiration, .waiting expiration hheap hgiven ?_, fun nows => ?_⟩
        · exact fun hmem => hle (hiff.mp hmem)
        · rw [outcome, outcome, schedule, if_neg hle]
  | turn f expiration hheap hgiven hfiring =>
      rw [hidle] at hfiring
      cases hfiring
  | past f expiration hheap hgiven hfiring =>
      rw [hidle] at hfiring
      cases hfiring
  | gone hnone => exact ⟨.gone, .gone hnone, fun _ => rfl⟩

/-- The next callback of a batch, which may be that of the timer. -/
theorem runNext_tracks (hinv : Inv w) (h : Tracks w a t s) {now : DateTime}
    {expired todo : List Entry} {x : Entry}
    (hfiring : w.firing = some { now := now, expired := expired, todo := x :: todo }) :
    ∃ s', Tracks { runTimer w (ofLex x).2 with
        firing := some { now := now, expired := expired, todo := todo } } a t s' ∧
      ∀ nows, (if (w.timer (ofLex x).2).sequence = t.sequence then [now] else []) ++
        outcome t nows s' = outcome t nows s := by
  obtain ⟨⟨u, hu⟩, hbatch, htodo⟩ := heap_of_next hinv hfiring
  obtain ⟨done, hgood⟩ := hinv.good
  rw [timer_of hu]
  -- the callback is that of the timer if it stands at its address
  have hself {e : DateTime} (hheap : w.heap a = some { t with expiration := e }) :
      u.sequence = t.sequence ↔ (ofLex x).2 = a := by
    constructor
    · exact fun hseq => hgood.alive.unique _ _ u _ hu hheap hseq
    · intro heq
      rw [heq, hheap] at hu
      cases hu
      rfl
  cases h with
  | waiting expiration hheap hgiven hout =>
      have hne : (ofLex x).2 ≠ a := fun heq => hout (heq ▸ hbatch)
      refine ⟨.waiting expiration, .waiting expiration hheap hgiven ?_, fun nows => ?_⟩
      · rw [World.batch, hfiring] at hout
        exact hout
      · rw [if_neg (mt (hself hheap).mp hne)]
        rfl
  | turn f expiration hheap hgiven hf hexpired hmem hcancel =>
      rw [hfiring] at hf
      cases hf
      by_cases heq : (ofLex x).2 = a
      · refine ⟨.past now, .past ⟨now, expired, todo⟩ expiration hheap hgiven rfl hexpired
          (heq ▸ htodo) hcancel, fun nows => ?_⟩
        rw [if_pos ((hself hheap).mpr heq)]
        rfl
      · have hrest : a ∈ addrs todo := (mem_addrs_cons.mp hmem).resolve_left (Ne.symm heq)
        refine ⟨.turn now, .turn ⟨now, expired, todo⟩ expiration hheap hgiven rfl hexpired
          hrest hcancel, fun nows => ?_⟩
        rw [if_neg (mt (hself hheap).mp heq)]
        rfl
  | past f expiration hheap hgiven hf hexpired hmem hcancel =>
      rw [hfiring] at hf
      cases hf
      have hnot : a ≠ (ofLex x).2 ∧ a ∉ addrs todo := by
        rw [← not_or, ← mem_addrs_cons]
        exact hmem
      refine ⟨.past now, .past ⟨now, expired, todo⟩ expiration hheap hgiven rfl hexpired
        hnot.2 hcancel, fun nows => ?_⟩
      rw [if_neg (mt (hself hheap).mp hnot.1.symm)]
      rfl
  | gone hnone =>
      refine ⟨.gone, .gone hnone, fun nows => ?_⟩
      rw [if_neg (hnone _ u hu)]
      rfl

/-- `reset` restarts the timer, if it repeats. -/
theorem finishRead_tracks (hinv : Inv w) (h : Tracks w a t s) {clock now : DateTime}
    {expired : List Entry}
    (hfiring : w.firing = some { now := now, expired := expired, todo := [] })
    (hw' : w' = reset { w with callingExpiredTimers := false, firing := none } expired now clock) :
    ∃ s', Tracks w' a t s' ∧ ∀ nows, outcome t nows s' = outcome t nows s := by
  have hsteps : Steps w (.finishRead clock) w' := by
    rw [hw']
    exact .finishRead clock now expired hfiring
  obtain ⟨hidle, hsame, -⟩ := reset_rest { w with callingExpiredTimers := false, firing := none }
    expired now clock
  rw [← hw'] at hidle hsame
  have hnodup : (addrs expired).Nodup := by
    simp only [Inv, hfiring] at hinv
    obtain ⟨ran, -, hgood⟩ := hinv
    exact hgood.held.nodup
  have hheap' : w'.heap a = if a ∈ addrs expired then (w.heap a).bind fun t =>
        if t.repeat_ ∧ (a, t.sequence) ∉ w.cancelingTimers then some (t.restart now) else none
      else w.heap a := by
    rw [hw', reset, armNext_heap, foldl_resetTimer_heap hnodup]
  have hout : a ∉ w'.batch := by
    rw [World.batch, hidle]
    exact List.not_mem_nil
  have hleft {b : Addr} {u : Timer} (hu : w'.heap b = some u) :
      ∃ v, w.heap b = some v ∧ v.sequence = u.sequence := by
    cases heap_of_step hinv hsteps hu with
    | kept _ _ hu hbatch => exact ⟨u, hu, rfl⟩
    | restarted _ f v hf hb hv hrepeat hcancel => exact ⟨v, hv, rfl⟩
  cases h with
  | waiting expiration hheap hgiven hnot =>
      rw [World.batch, hfiring] at hnot
      replace hnot : a ∉ addrs expired := hnot
      rw [if_neg hnot] at hheap'
      exact ⟨.waiting expiration, .waiting expiration (hheap'.trans hheap) (hsame ▸ hgiven) hout,
        fun _ => rfl⟩
  | turn f expiration hheap hgiven hf hexpired hmem hcancel =>
      rw [hfiring] at hf
      cases hf
      exact absurd hmem List.not_mem_nil
  | past f expiration hheap hgiven hf hexpired hmem hcancel =>
      rw [hfiring] at hf
      cases hf
      rw [if_pos hexpired, hheap, Option.bind_some] at hheap'
      by_cases hrepeat : t.repeat_ = true
      · rw [if_pos ⟨hrepeat, hcancel⟩] at hheap'
        have hnext : ({ t with expiration := expiration } : Timer).restart now =
            { t with expiration := addSeconds now t.interval } := by
          simp only [Timer.restart, hrepeat, if_true]
        rw [hnext] at hheap'
        refine ⟨.waiting _, .waiting _ hheap' (hsame ▸ hgiven) hout, fun nows => ?_⟩
        rw [outcome, outcome, afterwards, if_pos hrepeat]
      · rw [if_neg fun hboth => hrepeat hboth.1] at hheap'
        obtain ⟨done, hgood⟩ := hinv.good
        refine ⟨.gone, .gone fun b u hu hseq => ?_, fun nows => ?_⟩
        · -- the number is that of the timer at `a`, which is deleted
          obtain ⟨v, hv, hvseq⟩ := hleft hu
          have hb : b = a := hgood.alive.unique b a v _ hv hheap (hvseq.trans hseq)
          rw [hb, hheap'] at hu
          cases hu
        · rw [outcome, outcome, afterwards, if_neg hrepeat]
  | gone hnone =>
      refine ⟨.gone, .gone fun b u hu hseq => ?_, fun _ => rfl⟩
      obtain ⟨v, hv, hvseq⟩ := hleft hu
      exact hnone b v hv (hvseq.trans hseq)

theorem addTimerInLoop_canceling (w : World) (b : Addr) (clock : DateTime) :
    (addTimerInLoop w b clock).cancelingTimers = w.cancelingTimers := by
  simp only [addTimerInLoop]
  split <;> rfl

/-- What a step fires of the timer is what the schedule loses by it. -/
theorem step_tracks (hinv : Inv w) (hold : t.sequence < w.numCreated) (h : Tracks w a t s)
    {act : Action} (hsteps : Steps w act w') (hcancel : act ≠ .cancelInLoop (a, t.sequence)) :
    ∃ s', Tracks w' a t s' ∧ ∀ nows,
      ((fired w act).filterMap fun x => if x.1 = t.sequence then some x.2 else none) ++
        outcome t nows s' = outcome t (readOf act ++ nows) s := by
  cases hsteps with
  | newTimer b when_ interval hfree hmax =>
      refine ⟨s, h.of_same ?_ ?_ id rfl id, fun _ => rfl⟩
      · intro u hu _
        have hne : a ≠ b := by
          intro heq
          rw [heq, hfree] at hu
          cases hu
        exact (Function.update_of_ne hne _ _).trans hu
      · intro c u hu
        -- its number is a new one
        rcases heap_withNew hu with ⟨-, rfl⟩ | ⟨-, hu⟩
        · exact .inr hold.ne'
        · exact .inl hu
  | otherTimer => exact ⟨s, h.of_same (fun _ hu _ => hu) (fun _ _ hu => .inl hu) id rfl id, fun _ => rfl⟩
  | addTimerInLoop b clock hwait =>
      refine ⟨s, h.of_same ?_ ?_ ?_ (addTimerInLoop_firing w b clock) ?_, fun _ => rfl⟩
      · rw [addTimerInLoop_heap]
        exact fun u hu _ => hu
      · rw [addTimerInLoop_heap]
        exact fun c u hu => .inl hu
      · rw [addTimerInLoop_given]
        exact List.mem_append_left _
      · rw [addTimerInLoop_canceling]
        exact id
  | cancelInLoop id =>
      have hid : id ≠ (a, t.sequence) := fun heq => hcancel (by rw [heq])
      exact ⟨s, cancel_tracks hinv h hid, fun _ => rfl⟩
  | handleRead now clock hidle =>
      obtain ⟨s', htracks, hnext⟩ := handleRead_tracks hinv h hidle now clock
      exact ⟨s', htracks, hnext⟩
  | runNext now expired x todo hfiring =>
      obtain ⟨s', htracks, hnext⟩ := runNext_tracks hinv h hfiring
      refine ⟨s', htracks, fun nows => ?_⟩
      rw [← show _ = outcome t (readOf .runNext ++ nows) s from hnext nows, fired_runNext hfiring,
        List.filterMap_cons, List.filterMap_nil]
      split <;> simp_all
  | finishRead clock now expired hfiring =>
      obtain ⟨s', htracks, hnext⟩ := finishRead_tracks hinv h hfiring rfl
      exact ⟨s', htracks, hnext⟩

/-! ## Runs -/

theorem run_tracks {as : List Action} (hinv : Inv w) (hold : t.sequence < w.numCreated)
    (h : Tracks w a t s) (hcancel : .cancelInLoop (a, t.sequence) ∉ as)
    (hrun : run step w as = some w') :
    ∃ s', Tracks w' a t s' ∧
      firedAt t.sequence w as ++ outcome t [] s' = outcome t (reads as) s := by
  induction as generalizing w s with
  | nil =>
      cases hrun
      exact ⟨s, h, rfl⟩
  | cons act as ih =>
      obtain ⟨u, hu, hrest⟩ := run_cons_eq_some.mp hrun
      obtain ⟨hne, hcancel⟩ := not_or.mp (mt List.mem_cons.mpr hcancel)
      have hsteps := steps_of_step hu
      obtain ⟨s₁, htracks, hnow⟩ := step_tracks hinv hold h hsteps (Ne.symm hne)
      obtain ⟨s', hend, hrec⟩ := ih (step_inv hinv hu) (lt_of_lt_of_le hold (numCreated_le hinv hsteps))
        htracks hcancel hrest
      refine ⟨s', hend, ?_⟩
      rw [firedAt_cons hu, List.append_assoc, hrec, hnow]
      rfl

/-- In every run, with any number of other timers that come, fire and are cancelled at any
    time: a timer that is given to the queue and not cancelled fires at the times that its
    expiration, its interval and the reads say, and at no others; where the run ends within a
    batch that holds it, its last firing may be still to come. -/
theorem fires_as_scheduled (before : List Action) (w : World) (hrun : run step {} before = some w)
    (a : Addr) (t : Timer) (ht : w.heap a = some t) (clock : DateTime) (after : List Action)
    (hcancel : .cancelInLoop (a, t.sequence) ∉ after) (w' : World)
    (hafter : run step w (.addTimerInLoop a clock :: after) = some w') :
    ∃ late, firedAt t.sequence w (.addTimerInLoop a clock :: after) ++ late =
        schedule t t.expiration (reads after) ∧
      (late = [] ∨ ∃ f, w'.firing = some f ∧ a ∈ addrs f.todo ∧ late = [f.now]) := by
  obtain ⟨u, hu, hrest⟩ := run_cons_eq_some.mp hafter
  have hinv := inv_run hrun
  obtain ⟨done, hgood⟩ := hinv.good
  have hsteps := steps_of_step hu
  obtain ⟨hwait, heq⟩ := Option.ite_none_right_eq_some.mp hu
  have hnot : t.sequence ∉ w.given := by
    obtain ⟨v, hv, hvnot⟩ := exists_of_awaiting hwait
    rw [ht] at hv
    cases hv
    exact hvnot
  cases heq
  have hwaiting : Tracks (addTimerInLoop w a clock) a t (.waiting t.expiration) := by
    refine .waiting t.expiration ?_ ?_ ?_
    · rw [addTimerInLoop_heap]
      exact ht
    · rw [addTimerInLoop_given, timer_of ht]
      exact List.mem_append_right _ (List.mem_singleton.mpr rfl)
    · rw [World.batch, addTimerInLoop_firing]
      exact not_mem_batch hinv ht hnot
  have hold := lt_of_lt_of_le (hgood.alive.made a t ht).1 (numCreated_le hinv hsteps)
  obtain ⟨s', hend, hrec⟩ := run_tracks (step_inv hinv hu) hold hwaiting hcancel hrest
  -- nothing comes behind the last read
  have hnil (now : DateTime) : afterwards t now [] = [] := by
    unfold afterwards
    split <;> rfl
  refine ⟨outcome t [] s', ?_, ?_⟩
  · rw [firedAt_cons hu]
    exact hrec
  · cases hend with
    | waiting | gone => exact .inl rfl
    | turn f expiration hheap hgiven hfiring hexpired htodo =>
        exact .inr ⟨f, hfiring, htodo, by rw [outcome, hnil]⟩
    | past f => exact .inl (hnil f.now)

/-- A timer of one second and one that fires once, whose address is used again. -/
def twoTimers : List Action :=
  [.addTimerInLoop 9 0, .handleRead 60 60, .runNext, .finishRead 60, .newTimer 9 70 0,
   .addTimerInLoop 9 65, .cancelInLoop (9, 2), .handleRead 2000000 2000000, .runNext,
   .finishRead 2000000, .handleRead 2500000 2500000, .finishRead 2500000,
   .handleRead 3000000 3000000, .runNext, .finishRead 3000000]

theorem fires_as_scheduled_twoTimers :
    ∃ w w', run step {} [.newTimer 8 1000000 1, .newTimer 9 50 0] = some w ∧
      run step w (.addTimerInLoop 8 0 :: twoTimers) = some w' ∧
      firedAt 0 w (.addTimerInLoop 8 0 :: twoTimers) = [2000000, 3000000] := by
  have hsome : ((run step {} [.newTimer 8 1000000 1, .newTimer 9 50 0]).bind fun w =>
      (run step w (.addTimerInLoop 8 0 :: twoTimers)).map fun w' =>
        (w.heap 8, w'.firing)) = some (some (Timer.new 1000000 1 0), none) := by
    decide +kernel
  obtain ⟨w, hrun, hsome⟩ := Option.bind_eq_some_iff.mp hsome
  obtain ⟨w', hafter, hend⟩ := Option.map_eq_some_iff.mp hsome
  obtain ⟨ht, hidle⟩ := Prod.mk.inj hend
  obtain ⟨late, hfired, hlate⟩ := fires_as_scheduled _ w hrun 8 _ ht 0 twoTimers (by decide) w' hafter
  -- the run ends outside of `handleRead`
  have hnone : late = [] := by
    rcases hlate with hnone | ⟨f, hf, -⟩
    · exact hnone
    · rw [hidle] at hf
      cases hf
  rw [hnone, List.append_nil] at hfired
  have hschedule : schedule (Timer.new 1000000 1 0) (Timer.new 1000000 1 0).expiration
      (reads twoTimers) = [2000000, 3000000] := by decide +kernel
  exact ⟨w, w', hrun, hafter, hfired.trans hschedule⟩

end TimerQueue
end Youth.Net
