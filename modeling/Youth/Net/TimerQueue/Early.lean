/-
  Youth.Net.TimerQueue.Early

  When timers fire before their time.

  `addSeconds` takes an `int64_t`, so the fraction of a `double` is lost on the way:
  `addSeconds_late_iff` says for which delays the result is not too early.  The invariant
  `Due` carries that through a run: until its turn comes a timer expires no sooner than
  its delay after `last`, the time of its last firing (or of its scheduling).
-/

import Mathlib.Tactic.Linarith
import Mathlib.Data.List.Chain
import Youth.Net.TimerQueue.Firing

namespace Youth.Net
namespace TimerQueue

open Youth.Lib
open Youth.Core (DateTime int64 int64_lt int64_of_inRange)

/-- `EventLoop::runAt`, with the timer at `a`. -/
def runAt (a : Addr) (time : DateTime) : Action := .newTimer a time 0

/-- `EventLoop::runAfter` at the time `clock`. -/
def runAfter (a : Addr) (clock : DateTime) (delay : ℚ) : Action := runAt a (addSeconds clock delay)

/-- `EventLoop::runEvery` at the time `clock`. -/
def runEvery (a : Addr) (clock : DateTime) (interval : ℚ) : Action :=
  .newTimer a (addSeconds clock interval) interval

/-- A delay of `d` seconds, in microseconds. -/
def micros (d : ℚ) : ℚ := d * 1000000

/-- `d` is a whole number of seconds. -/
def Whole (d : ℚ) : Prop := ∃ n : ℤ, d = n

/-- An instant that an `int64_t` can hold. -/
def InRange (t : ℚ) : Prop := -0x8000000000000000 ≤ t ∧ t < 0x8000000000000000

/-! ## The arithmetic -/

theorem addSeconds_eq (t : DateTime) (n : ℤ) :
    DateTime.addSeconds t n = int64 (t + n * 1000000) := by
  have hmul : n * 1000 * 1000 = n * 1000000 := by omega
  simp only [DateTime.addSeconds, DateTime.addMilliSeconds, DateTime.addMicroSeconds, int64,
    Int.bmod_mul_bmod, Int.add_bmod_bmod, hmul]

/-- Shifting by a whole number of seconds that fits. -/
theorem addSeconds_floor {c : ℤ} {d : ℚ} (hc : InRange c) (hd : 0 ≤ d)
    (hfits : c + d.floor * 1000000 < 0x8000000000000000) :
    addSeconds c d = c + d.floor * 1000000 := by
  have hc0 : (-0x8000000000000000 : ℤ) ≤ c := by exact_mod_cast hc.1
  have hfloor : 0 ≤ d.floor := Rat.le_floor_iff.mpr (by simpa using hd)
  have htrunc : truncate d = d.floor := by
    simp only [truncate, if_pos hd]
    rw [if_pos (by omega)]
  rw [addSeconds, htrunc, addSeconds_eq]
  exact int64_of_inRange (by omega) hfits

/-- The result is not before `d` seconds later iff `d` is whole and the sum fits. -/
theorem addSeconds_late_iff {c : ℤ} {d : ℚ} (hc : InRange c) (hd : 0 ≤ d) :
    (c : ℚ) + micros d ≤ addSeconds c d ↔ Whole d ∧ InRange (c + micros d) := by
  have hfloor : (d.floor : ℚ) ≤ d := Rat.floor_le d
  have hlt : ((addSeconds c d : ℤ) : ℚ) < 0x8000000000000000 := by
    have := int64_lt (c + truncate d * 1000000)
    rw [addSeconds, addSeconds_eq]
    exact_mod_cast this
  have hpos : 0 ≤ micros d := by unfold micros; linarith
  by_cases hfits : c + d.floor * 1000000 < 0x8000000000000000
  · -- The floor is added exactly
    have heq := addSeconds_floor hc hd hfits
    have heq' : ((addSeconds c d : ℤ) : ℚ) = c + d.floor * 1000000 := by
      rw [heq]
      push_cast
      ring
    rw [heq'] at hlt ⊢
    constructor
    · intro hlate
      have hwhole : d = d.floor := by
        unfold micros at hlate
        linarith
      exact ⟨⟨d.floor, hwhole⟩, by linarith [hc.1], by linarith⟩
    · rintro ⟨⟨n, rfl⟩, -⟩
      rw [Rat.floor_intCast]
      exact le_rfl
  · -- The sum does not fit: whatever is left of it is smaller
    have hbig : (0x8000000000000000 : ℚ) ≤ c + micros d := by
      have hle : (0x8000000000000000 : ℤ) ≤ c + d.floor * 1000000 := not_lt.mp hfits
      have hle' : (0x8000000000000000 : ℚ) ≤ c + d.floor * 1000000 := by exact_mod_cast hle
      unfold micros
      linarith
    constructor
    · intro hlate
      linarith
    · rintro ⟨-, -, hsmall⟩
      linarith

/-! ## Until its turn comes -/

/-- A restart at `now` would not be early. -/
def Late (d : ℚ) (now : ℤ) : Prop := (now : ℚ) + micros d ≤ (addSeconds now d : ℤ)

/-- The timer `q`, which last fired at `last`, is not due before `d` seconds after that.
    Once its turn of a batch is over, `last` is the time of that batch.  It repeats only
    if `rep`. -/
structure Due (w : World) (q : ℤ) (d : ℚ) (rep : Prop) (last : ℤ) : Prop where
  old : q < w.numCreated
  interval : ∀ b t, w.heap b = some t → t.sequence = q → t.repeat_ = true → rep ∧ t.interval = d
  waiting : ∀ b t, w.heap b = some t → t.sequence = q → b ∉ w.batch →
    (last : ℚ) + micros d ≤ (t.expiration : ℤ)
  turn : ∀ b t f, w.heap b = some t → t.sequence = q → w.firing = some f → b ∈ addrs f.todo →
    (last : ℚ) + micros d ≤ (f.now : ℤ)
  past : ∀ b t f, w.heap b = some t → t.sequence = q → w.firing = some f → b ∈ addrs f.expired →
    b ∉ addrs f.todo → last = f.now
  restart : ∀ b t f, w.heap b = some t → t.sequence = q → w.firing = some f → b ∈ addrs f.expired →
    rep → Late d f.now

variable {w w' : World} {q : ℤ} {d : ℚ} {rep : Prop} {last : ℤ}

/-- Steps that leave the batch alone. -/
theorem Due.of_same_firing (hinv : Inv w) (h : Due w q d rep last) {a : Action} (hsteps : Steps w a w')
    (hnot : ∀ clock, a ≠ .finishRead clock) (hfiring : w'.firing = w.firing) :
    Due w' q d rep last := by
  have hbatch : w'.batch = w.batch := by rw [World.batch, World.batch, hfiring]
  -- No timer with this number is new
  have hold {b : Addr} {u : Timer} (hu : w'.heap b = some u) (hseq : u.sequence = q) :
      w.heap b = some u := by
    cases heap_of_step hinv hsteps hu with
    | made when_ interval => exact absurd hseq h.old.ne'
    | kept _ _ hu hbatch => exact hu
    | restarted clock f t hfiring hb ht hrepeat hcancel => exact absurd rfl (hnot clock)
  refine ⟨lt_of_lt_of_le h.old (numCreated_le hinv hsteps), ?_, ?_, ?_, ?_, ?_⟩
  · exact fun b u hu hseq => h.interval b u (hold hu hseq) hseq
  · rw [hbatch]
    exact fun b u hu hseq => h.waiting b u (hold hu hseq) hseq
  · rw [hfiring]
    exact fun b u f hu hseq => h.turn b u f (hold hu hseq) hseq
  · rw [hfiring]
    exact fun b u f hu hseq => h.past b u f (hold hu hseq) hseq
  · rw [hfiring]
    exact fun b u f hu hseq => h.restart b u f (hold hu hseq) hseq

/-- `handleRead`: what it takes into the batch has expired. -/
theorem handleRead_due (hinv : Inv w) (h : Due w q d rep last) (hidle : w.firing = none)
    {now : ℤ} (hlate : rep → Late d now) (clock : ℤ) :
    Due (handleRead w now clock) q d rep last := by
  have hbatch : w.batch = [] := by rw [World.batch, hidle, Option.elim_none]
  rw [handleRead_eq hinv hidle]
  simp only [Inv, hidle] at hinv
  refine ⟨h.old, h.interval, ?_, ?_, ?_, ?_⟩
  · intro b t ht hseq _
    exact h.waiting b t ht hseq (by rw [hbatch]; exact List.not_mem_nil)
  · intro b t f ht hseq hf hmem
    cases hf
    -- The entry of `b` is below the sentry, so its time is not after `now`
    obtain ⟨x, hx, rfl⟩ := List.mem_map.mp hmem
    obtain ⟨hin, hlt⟩ := mem_below.mp hx
    obtain ⟨u, ⟨hu, -, -⟩, hexp⟩ := (hinv.agree.timers x).mp hin
    have hu' : w.heap (ofLex x).2 = some t := ht
    rw [hu'] at hu
    cases hu
    have hle : (ofLex x).1 ≤ now := by
      rcases Prod.Lex.lt_iff.mp hlt with hlt | ⟨heq, -⟩
      · exact le_of_lt hlt
      · exact le_of_eq heq
    have hdue := h.waiting _ t hu' hseq (by rw [hbatch]; exact List.not_mem_nil)
    rw [hexp] at hdue
    have hcast : (((ofLex x).1 : ℤ) : ℚ) ≤ now := by exact_mod_cast hle
    exact le_trans hdue hcast
  · intro b t f ht hseq hf hexpired htodo
    cases hf
    exact absurd hexpired htodo
  · intro b t f _ _ hf _ hrep
    cases hf
    exact hlate hrep

/-- `reset`: what is put back expires `d` seconds after the batch. -/
theorem finishRead_due (hinv : Inv w) (h : Due w q d rep last) {clock : DateTime}
    (hsteps : Steps w (.finishRead clock) w') : Due w' q d rep last := by
  have hidle {f : Firing} (hf : w'.firing = some f) : False := by
    cases hsteps with
    | finishRead _ now expired hfiring =>
        rw [(reset_rest _ _ _ _).1] at hf
        cases hf
  refine ⟨lt_of_lt_of_le h.old (numCreated_le hinv hsteps), ?_, ?_, ?_, ?_, ?_⟩
  · intro b u hu hseq hrepeat
    cases heap_of_step hinv hsteps hu with
    | kept _ _ hu hbatch => exact h.interval b u hu hseq hrepeat
    | restarted _ f t hfiring hb ht hrepeat' hcancel => exact h.interval b t ht hseq hrepeat'
  · intro b u hu hseq _
    cases heap_of_step hinv hsteps hu with
    | kept _ _ hu hbatch => exact h.waiting b u hu hseq (hbatch clock rfl)
    | restarted _ f t hfiring hb ht hrepeat hcancel =>
        -- restarted from the time of the batch, which is that of its last firing
        have hover : last = f.now := by
          refine h.past b t f ht hseq hfiring hb ?_
          cases hsteps with
          | finishRead _ now expired hfiring' =>
              rw [hfiring'] at hfiring
              cases hfiring
              exact List.not_mem_nil
        obtain ⟨hrep, hinterval⟩ := h.interval b t ht hseq hrepeat
        simp only [Timer.restart, hrepeat, if_true, hinterval]
        rw [hover]
        exact h.restart b t f ht hseq hfiring hb hrep
  · exact fun _ _ _ _ _ hf => (hidle hf).elim
  · exact fun _ _ _ _ _ hf => (hidle hf).elim
  · exact fun _ _ _ _ _ hf => (hidle hf).elim

/-- The next callback of a batch is that of a timer that is there. -/
theorem heap_of_next (hinv : Inv w) {now : DateTime} {expired todo : List Entry} {x : Entry}
    (hfiring : w.firing = some { now := now, expired := expired, todo := x :: todo }) :
    (∃ t, w.heap (ofLex x).2 = some t) ∧ (ofLex x).2 ∈ w.batch ∧ (ofLex x).2 ∉ addrs todo := by
  have hbatch : w.batch = addrs expired := by rw [World.batch, hfiring, Option.elim_some]
  simp only [Inv, hfiring] at hinv
  obtain ⟨ran, hran, hgood⟩ := hinv
  have haddrs : addrs expired = addrs ran ++ (ofLex x).2 :: addrs todo := by
    rw [hran, addrs, List.map_append]
    rfl
  have hmem : (ofLex x).2 ∈ addrs expired := by
    rw [haddrs]
    exact List.mem_append_right _ List.mem_cons_self
  obtain ⟨t, ht, -⟩ := hgood.held.held _ hmem
  have hnodup := hgood.held.nodup
  rw [haddrs] at hnodup
  have hnodup' := (List.nodup_append.mp hnodup).2.1
  exact ⟨⟨t, ht⟩, hbatch ▸ hmem, (List.nodup_cons.mp hnodup').1⟩

/-- The next callback: if it is that of `q`, its time has come and `last` moves on. -/
theorem runNext_due (hinv : Inv w) (h : Due w q d rep last) {now : ℤ} {expired todo : List Entry}
    {x : Entry} (hfiring : w.firing = some { now := now, expired := expired, todo := x :: todo }) :
    ((w.timer (ofLex x).2).sequence = q → (last : ℚ) + micros d ≤ now ∧
        Due { runTimer w (ofLex x).2 with
          firing := some { now := now, expired := expired, todo := todo } } q d rep now) ∧
      ((w.timer (ofLex x).2).sequence ≠ q →
        Due { runTimer w (ofLex x).2 with
          firing := some { now := now, expired := expired, todo := todo } } q d rep last) := by
  obtain ⟨⟨t, ht⟩, hx, htodo⟩ := heap_of_next hinv hfiring
  obtain ⟨done, hgood⟩ := hinv.good
  have hbatch : w.batch = addrs expired := by rw [World.batch, hfiring, Option.elim_some]
  rw [timer_of ht]
  constructor
  · intro hseq
    -- No other timer has its number
    have hself {b : Addr} {u : Timer} (hu : w.heap b = some u) (hq : u.sequence = q) :
        b = (ofLex x).2 := hgood.alive.unique b _ u t hu ht (hq.trans hseq.symm)
    have hturn := h.turn (ofLex x).2 t ⟨now, expired, x :: todo⟩ ht hseq hfiring List.mem_cons_self
    refine ⟨hturn, h.old, h.interval, ?_, ?_, ?_, ?_⟩
    · intro b u hu hq hout
      have hout' : b ∉ w.batch := by
        rw [hbatch]
        exact hout
      exact absurd (hself hu hq ▸ hx) hout'
    · intro b u f hu hq hf hmem
      cases hf
      exact absurd (hself hu hq ▸ hmem) htodo
    · intro b u f _ _ hf _ _
      cases hf
      rfl
    · intro b u f hu hq hf hexpired
      cases hf
      exact h.restart b u ⟨now, expired, x :: todo⟩ hu hq hfiring hexpired
  · intro hseq
    refine ⟨h.old, h.interval, ?_, ?_, ?_, ?_⟩
    · intro b u hu hq hout
      refine h.waiting b u hu hq ?_
      rw [hbatch]
      exact hout
    · intro b u f hu hq hf hmem
      cases hf
      exact h.turn b u ⟨now, expired, x :: todo⟩ hu hq hfiring (mem_addrs_cons.mpr (.inr hmem))
    · intro b u f hu hq hf hexpired hnot
      cases hf
      refine h.past b u ⟨now, expired, x :: todo⟩ hu hq hfiring hexpired fun hmem => ?_
      rcases mem_addrs_cons.mp hmem with rfl | hmem
      · -- `x` is another timer
        have hu' : w.heap (ofLex x).2 = some u := hu
        rw [ht] at hu'
        cases hu'
        exact hseq hq
      · exact hnot hmem
    · intro b u f hu hq hf hexpired
      cases hf
      exact h.restart b u ⟨now, expired, x :: todo⟩ hu hq hfiring hexpired

/-! ## Whole runs -/

/-- Neighbours are at least `d` seconds apart. -/
def Spaced (d : ℚ) (times : List ℤ) : Prop :=
  times.IsChain fun m n => (m : ℚ) + micros d ≤ (n : ℚ)

theorem firedAt_cons {a : Action} {as : List Action} (h : step w a = some w') :
    firedAt q w (a :: as) =
      ((fired w a).filterMap fun x => if x.1 = q then some x.2 else none) ++ firedAt q w' as := by
  rw [firedAt, firings_cons h, List.filterMap_append]
  rfl

/-- The times a restart may take place at: those of the batches. -/
def LateReads (d : ℚ) (rep : Prop) (as : List Action) : Prop :=
  rep → ∀ now clock, .handleRead now clock ∈ as → Late d now

/-- What a step fires of `q`, and what is then due. -/
theorem step_due {a : Action} (hinv : Inv w) (h : Due w q d rep last) (hsteps : Steps w a w')
    (hlate : rep → ∀ now clock, a = .handleRead now clock → Late d now) :
    (∀ n, (q, n) ∉ fired w a) ∧ Due w' q d rep last ∨
      ∃ n : ℤ, fired w a = [(q, n)] ∧ (last : ℚ) + micros d ≤ n ∧ Due w' q d rep n := by
  have hsame : Steps w a w' := hsteps
  cases hsteps with
  | newTimer a when_ interval hfree hmax =>
      exact .inl ⟨fun _ => List.not_mem_nil, h.of_same_firing hinv hsame (by simp) rfl⟩
  | otherTimer => exact .inl ⟨fun _ => List.not_mem_nil, h.of_same_firing hinv hsame (by simp) rfl⟩
  | addTimerInLoop a clock hwait =>
      exact .inl ⟨fun _ => List.not_mem_nil,
        h.of_same_firing hinv hsame (by simp) (addTimerInLoop_firing w a clock)⟩
  | cancelInLoop id =>
      exact .inl ⟨fun _ => List.not_mem_nil,
        h.of_same_firing hinv hsame (by simp) (cancelInLoop_firing w id)⟩
  | handleRead now clock hidle =>
      exact .inl ⟨fun _ => List.not_mem_nil, handleRead_due hinv h hidle
        (fun hrep => hlate hrep now clock rfl) clock⟩
  | runNext now expired x todo hfiring =>
      obtain ⟨hself, hother⟩ := runNext_due hinv h hfiring
      by_cases hseq : (w.timer (ofLex x).2).sequence = q
      · right
        obtain ⟨hdue, hnext⟩ := hself hseq
        exact ⟨now, by rw [fired_runNext hfiring, hseq], hdue, hnext⟩
      · left
        refine ⟨fun n hmem => ?_, hother hseq⟩
        rw [fired_runNext hfiring, List.mem_singleton] at hmem
        exact hseq (congrArg Prod.fst hmem).symm
  | finishRead clock now expired hfiring =>
      exact .inl ⟨fun _ => List.not_mem_nil, finishRead_due hinv h hsame⟩

/-- A step that is not enabled fires nothing. -/
theorem fired_of_none {a : Action} (h : step w a = none) : fired w a = [] := by
  cases a with
  | runNext =>
      simp only [fired]
      split
      next now expired x todo hfiring =>
        simp only [step, hfiring] at h
        cases h
      · rfl
  | _ => rfl

theorem filterMap_fired_eq_nil {a : Action} (h : ∀ n, (q, n) ∉ fired w a) :
    ((fired w a).filterMap fun x => if x.1 = q then some x.2 else none) = [] := by
  rw [List.filterMap_eq_nil_iff]
  rintro ⟨p, n⟩ hx
  rw [if_neg]
  rintro rfl
  exact h n hx

/-- A run in which no restart is early fires `q` with the right distances. -/
theorem spaced_of_due (hinv : Inv w) (h : Due w q d rep last) {as : List Action}
    (hreads : LateReads d rep as) : Spaced d (last :: firedAt q w as) := by
  induction as generalizing w last with
  | nil => exact List.isChain_singleton _
  | cons a as ih =>
      cases hstep : step w a with
      | none =>
          have hnil : firedAt q w (a :: as) = [] := by
            rw [firedAt, firings, hstep, fired_of_none hstep]
            rfl
          rw [hnil]
          exact List.isChain_singleton _
      | some u =>
          have hsteps := steps_of_step hstep
          have hlate (hrep : rep) (now clock : DateTime) (ha : a = .handleRead now clock) :
              Late d now := hreads hrep now clock (ha ▸ List.mem_cons_self)
          have hrest : LateReads d rep as := fun hrep now clock hmem =>
            hreads hrep now clock (List.mem_cons_of_mem _ hmem)
          rw [firedAt_cons hstep]
          rcases step_due hinv h hsteps hlate with ⟨hnone, hdue⟩ | ⟨n, hfired, hdist, hdue⟩
          · rw [filterMap_fired_eq_nil hnone]
            exact ih (step_inv hinv hstep) hdue hrest
          · have hone : ((fired w a).filterMap fun x => if x.1 = q then some x.2 else none) = [n] := by
              rw [hfired]
              simp
            rw [hone]
            exact List.isChain_cons_cons.mpr ⟨hdist, ih (step_inv hinv hstep) hdue hrest⟩

/-- In a spaced list everything lies at least `d` behind the head. -/
theorem Spaced.le_of_mem (hd : 0 ≤ d) {times : List ℤ} (h : Spaced d (last :: times)) {n : ℤ}
    (hn : n ∈ times) : (last : ℚ) + micros d ≤ n := by
  have hpos : 0 ≤ micros d := by
    unfold micros
    linarith
  induction times generalizing last with
  | nil => exact absurd hn List.not_mem_nil
  | cons m times ih =>
      obtain ⟨hdist, hrest⟩ := List.isChain_cons_cons.mp h
      rcases List.mem_cons.mp hn with rfl | hn
      · exact hdist
      · have hle := ih hrest hn
        linarith

/-! ## Scheduling -/

/-- A timer scheduled with the result of `addSeconds`, where that is not early. -/
theorem withNew_due (rep : Prop) (hinv : Inv w) {a : Addr} (hfree : w.heap a = none) {clock : ℤ}
    (hlate : Late d clock) {interval : ℚ} (hrep : 0 < interval → rep ∧ interval = d) :
    Due (w.withNew a (addSeconds clock d) interval) w.numCreated d rep clock := by
  obtain ⟨done, hgood⟩ := hinv.good
  have hout : a ∉ w.batch := by
    intro hmem
    obtain ⟨u, hu, -⟩ := hgood.held.held a hmem
    rw [hfree] at hu
    cases hu
  -- The new timer is the only one with its number
  have hnew {b : Addr} {u : Timer} (hu : (w.withNew a (addSeconds clock d) interval).heap b = some u)
      (hseq : u.sequence = w.numCreated) :
      b = a ∧ u = Timer.new (addSeconds clock d) interval w.numCreated := by
    rcases heap_withNew hu with hnew | ⟨-, hu⟩
    · exact hnew
    · exact absurd hseq (hgood.alive.made b u hu).1.ne
  have hfree' {b : Addr} {u : Timer} {f : Firing}
      (hu : (w.withNew a (addSeconds clock d) interval).heap b = some u)
      (hseq : u.sequence = w.numCreated) (hf : w.firing = some f) : b ∉ addrs f.expired := by
    rw [World.batch, hf, Option.elim_some] at hout
    rw [(hnew hu hseq).1]
    exact hout
  refine ⟨lt_add_one _, ?_, ?_, ?_, ?_, ?_⟩
  · intro b u hu hseq hrepeat
    obtain ⟨-, rfl⟩ := hnew hu hseq
    exact hrep (by simpa [Timer.new] using hrepeat)
  · intro b u hu hseq _
    obtain ⟨-, rfl⟩ := hnew hu hseq
    exact hlate
  · intro b u f hu hseq hf hmem
    have hf' : w.firing = some f := hf
    have hnot := hfree' hu hseq hf'
    simp only [Inv, hf'] at hinv
    obtain ⟨ran, hran, -⟩ := hinv
    rw [hran, addrs, List.map_append] at hnot
    exact absurd (List.mem_append_right _ hmem) hnot
  · intro b u f hu hseq hf hmem _
    exact absurd hmem (hfree' hu hseq hf)
  · intro b u f hu hseq hf hmem _
    exact absurd hmem (hfree' hu hseq hf)

/-- The new timer waits for its `addTimerInLoop`. -/
theorem withNew_waits (hinv : Inv w) (a : Addr) (when_ : DateTime) (interval : ℚ) :
    Waits (w.withNew a when_ interval) a (Timer.new when_ interval w.numCreated) := by
  obtain ⟨done, hgood⟩ := hinv.good
  refine ⟨Function.update_self _ _ _, fun hmem => ?_⟩
  exact absurd (hgood.alive.given _ hmem) (lt_irrefl _)

theorem step_newTimer {a : Addr} (hfree : w.heap a = none) (hnull : a ≠ nullptr)
    (hmax : a < UINTPTR_MAX) (when_ : DateTime) (interval : ℚ) :
    step w (.newTimer a when_ interval) = some (w.withNew a when_ interval) := by
  simp only [step, if_pos (And.intro hfree (And.intro hnull hmax)), World.withNew]

/-- What is fired once a new timer is there. -/
theorem firedAt_newTimer {a : Addr} (hfree : w.heap a = none) (hnull : a ≠ nullptr)
    (hmax : a < UINTPTR_MAX) (when_ : DateTime) (interval : ℚ) (more : List Action) :
    firedAt q w (.newTimer a when_ interval :: more) =
      firedAt q (w.withNew a when_ interval) more := by
  rw [firedAt_cons (step_newTimer hfree hnull hmax when_ interval)]
  rfl

/-- The first firing can come as early as the result of `addSeconds`. -/
theorem exists_firedAt (hinv : Inv w) (a : Addr) (when_ : ℤ) (interval : ℚ) (hfree : w.heap a = none)
    (hnull : a ≠ nullptr) (hmax : a < UINTPTR_MAX) :
    ∃ more, (∀ now clock, .handleRead now clock ∈ more → now = when_) ∧
      when_ ∈ firedAt w.numCreated w (.newTimer a when_ interval :: more) := by
  have hinv' := step_inv hinv (step_newTimer hfree hnull hmax when_ interval)
  obtain ⟨more, hreads, hfired⟩ := fires_of_waits hinv' (withNew_waits hinv a when_ interval)
  refine ⟨more, hreads, ?_⟩
  rw [firedAt_newTimer hfree hnull hmax]
  exact hfired

/-- The times of the batches leave room for the next firing. -/
def ReadsFit (d : ℚ) (as : List Action) : Prop :=
  ∀ now clock, .handleRead now clock ∈ as → InRange (now : ℤ) ∧ InRange ((now : ℤ) + micros d)

/-- Between `clock` and the time computed for a delay of `d` seconds there is the whole
    part of `d`. -/
theorem addSeconds_cast {clock : ℤ} {d : ℚ} (hclock : InRange clock) (hd : 0 ≤ d)
    (hfits : InRange (clock + micros d)) :
    ((addSeconds clock d : ℤ) : ℚ) = clock + d.floor * 1000000 := by
  have hfloor : (d.floor : ℚ) * 1000000 ≤ micros d := by
    unfold micros
    linarith [Rat.floor_le d]
  have hsum : clock + d.floor * 1000000 < 0x8000000000000000 := by
    have : (clock : ℚ) + d.floor * 1000000 < 0x8000000000000000 := by linarith [hfits.2]
    exact_mod_cast this
  rw [addSeconds_floor hclock hd hsum]
  push_cast
  ring

section schedule

variable {a : Addr} {clock : ℤ}

/-- A whole interval: every restart is as late as it should be. -/
theorem spaced_of_whole (hinv : Inv w) (hfree : w.heap a = none) (hnull : a ≠ nullptr)
    (hmax : a < UINTPTR_MAX) (hclock : InRange clock) (hd : 0 ≤ d) (hwhole : Whole d)
    (hfits : InRange (clock + micros d)) {more : List Action} (hreads : ReadsFit d more) :
    Spaced d (clock :: firedAt w.numCreated w (runEvery a clock d :: more)) := by
  have hlate : Late d clock := (addSeconds_late_iff hclock hd).mpr ⟨hwhole, hfits⟩
  have hdue := withNew_due True hinv hfree hlate fun _ => ⟨trivial, rfl⟩
  have hinv' := step_inv hinv (step_newTimer hfree hnull hmax (addSeconds clock d) d)
  rw [runEvery, firedAt_newTimer hfree hnull hmax]
  refine spaced_of_due hinv' hdue fun _ now c hmem => ?_
  obtain ⟨hnow, hnext⟩ := hreads now c hmem
  exact (addSeconds_late_iff hnow hd).mpr ⟨hwhole, hnext⟩

/-- A fraction is cut off, so the first firing can come too early. -/
theorem whole_of_spaced (hinv : Inv w) (hfree : w.heap a = none) (hnull : a ≠ nullptr)
    (hmax : a < UINTPTR_MAX) (hclock : InRange clock) (hd : 0 ≤ d)
    (hroom : InRange (clock + 2 * micros d))
    (hspaced : ∀ more, ReadsFit d more →
      Spaced d (clock :: firedAt w.numCreated w (runEvery a clock d :: more))) : Whole d := by
  have hpos : 0 ≤ micros d := by
    unfold micros
    linarith
  have hfits : InRange (clock + micros d) := ⟨by linarith [hclock.1], by linarith [hroom.2]⟩
  obtain ⟨more, hreads, hfired⟩ := exists_firedAt hinv a (addSeconds clock d) d hfree hnull hmax
  have heq := addSeconds_cast hclock hd hfits
  have hfloor : (d.floor : ℚ) * 1000000 ≤ micros d := by
    unfold micros
    linarith [Rat.floor_le d]
  have hfloor0 : (0 : ℚ) ≤ d.floor := by
    have : (0 : ℤ) ≤ d.floor := Rat.le_floor_iff.mpr (by simpa using hd)
    exact_mod_cast this
  have hrange : InRange (addSeconds clock d : ℤ) ∧
      InRange ((addSeconds clock d : ℤ) + micros d) := by
    rw [heq]
    exact ⟨⟨by linarith [hclock.1], by linarith [hfits.2]⟩, by linarith [hclock.1],
      by linarith [hroom.2]⟩
  have hmore := hspaced more fun now c hmem => by
    rw [hreads now c hmem]
    exact hrange
  have hlate := hmore.le_of_mem hd hfired
  exact ((addSeconds_late_iff hclock hd).mp hlate).1

end schedule

/-- **Never early.**  For a timer scheduled in any state of any run: that of
    `runAfter(d)` never fires before `d` seconds are over iff `d` is a whole number of
    seconds and the sum fits; the firings of `runEvery(d)` are `d` seconds apart if `d` is
    a whole number of seconds and the sums fit, and, where there is room for two
    intervals, only if it is. -/
theorem never_early_iff {actions : List Action} {w : World} (hrun : run step {} actions = some w)
    {a : Addr} (hfree : w.heap a = none) (hnull : a ≠ nullptr) (hmax : a < UINTPTR_MAX) {clock : ℤ}
    (hclock : InRange clock) {d : ℚ} (hd : 0 ≤ d) :
    ((∀ more, ∀ n ∈ firedAt w.numCreated w (runAfter a clock d :: more),
        (clock : ℚ) + micros d ≤ (n : ℤ)) ↔ Whole d ∧ InRange (clock + micros d)) ∧
      (Whole d → InRange (clock + micros d) → ∀ more, ReadsFit d more →
        Spaced d (clock :: firedAt w.numCreated w (runEvery a clock d :: more))) ∧
      (InRange (clock + 2 * micros d) →
        (∀ more, ReadsFit d more →
          Spaced d (clock :: firedAt w.numCreated w (runEvery a clock d :: more))) → Whole d) := by
  have hinv : Inv w := run_invariant (fun _ _ _ h hstep => step_inv h hstep) inv_initial hrun
  refine ⟨?_, ?_, ?_⟩
  · rw [← addSeconds_late_iff hclock hd]
    constructor
    · intro hnever
      obtain ⟨more, -, hfired⟩ := exists_firedAt hinv a (addSeconds clock d) 0 hfree hnull hmax
      exact hnever more _ hfired
    · intro hlate more n hn
      -- A one-shot timer is never restarted
      have hdue := withNew_due False hinv hfree hlate fun h => absurd h (lt_irrefl 0)
      have hinv' := step_inv hinv (step_newTimer hfree hnull hmax (addSeconds clock d) 0)
      rw [runAfter, runAt, firedAt_newTimer hfree hnull hmax] at hn
      exact (spaced_of_due hinv' hdue fun h => h.elim).le_of_mem hd hn
  · intro hwhole hfits more hreads
    exact spaced_of_whole hinv hfree hnull hmax hclock hd hwhole hfits hreads
  · exact whole_of_spaced hinv hfree hnull hmax hclock hd

/-- Three seconds from the epoch, in an empty queue: whole, and everything fits. -/
theorem never_early_iff_threeSeconds :
    (∀ more, ∀ n ∈ firedAt 0 {} (runAfter 16 0 3 :: more), ((0 : ℤ) : ℚ) + micros 3 ≤ (n : ℤ)) ∧
      ∀ more, ReadsFit 3 more → Spaced 3 (0 :: firedAt 0 {} (runEvery 16 0 3 :: more)) := by
  have hwhole : Whole 3 := ⟨3, by norm_num⟩
  have hrun : run step {} [] = some {} := rfl
  have hclock : InRange (0 : ℤ) := by norm_num [InRange]
  have hfits : InRange ((0 : ℤ) + micros 3) := by norm_num [InRange, micros]
  have hd : (0 : ℚ) ≤ 3 := by norm_num
  have hmax : 16 < UINTPTR_MAX := by decide
  obtain ⟨hafter, hevery, -⟩ := never_early_iff hrun rfl (by decide) hmax hclock hd
  exact ⟨hafter.mpr ⟨hwhole, hfits⟩, hevery hwhole hfits⟩

/-- Half a second, as in the retries of `Connector`: the delay is cut to nothing. -/
theorem early_half :
    ¬∀ (d : ℚ) (more : List Action), 0 ≤ d → (∃ n : ℤ, micros d = n) →
      ∀ n ∈ firedAt 0 {} (runAfter 16 1000000 d :: more), 1000000 + micros d ≤ (n : ℤ) := by
  intro h
  have hfired : firedAt 0 {} (runAfter 16 1000000 (1 / 2) ::
      [.addTimerInLoop 16 1000000, .handleRead 1000000 1000000, .runNext]) = [1000000] := by
    decide +kernel
  have hlate := h (1 / 2) [.addTimerInLoop 16 1000000, .handleRead 1000000 1000000, .runNext]
    (by norm_num) ⟨500000, by norm_num [micros]⟩ 1000000 (by rw [hfired]; exact List.mem_cons_self)
  norm_num [micros] at hlate

end TimerQueue
end Youth.Net
