/-
  Youth.Net.TcpConnection.Reading

  `startRead` and `stopRead` from any threads.

  Both go through `EventLoop::runInLoop`, which calls at once in the loop thread and queues
  in the others.  The body of `stopReadInLoop` is `runInLoop` of itself; it runs in the loop
  thread, so it calls itself.  Calls inside calls are counted here: `readInLoop depth` has
  room for `depth` of them, and no depth is enough for `stopReadInLoop` (`readInLoop_stop`).
  That is what `overflow` stands for elsewhere (`switchRead_eq`).
-/

import Youth.Lib.Machine
import Youth.Net.TcpConnection.DownOnce

namespace Youth.Net
namespace TcpConnection

open Youth.Lib

/-- `EventLoop::runInLoop`, with a callback that may not come back. -/
def runInLoop (cb : World → Option World) (s : World) (tid : ThreadId) (f : Functor) : Option World :=
  if tid = loopThread then cb s else some (s.queueInLoop f)

def readFunctor (on : Bool) : Functor := if on then .startReadInLoop else .stopReadInLoop

/-- `startReadInLoop` and `stopReadInLoop`, with room for `depth` calls inside each other. -/
def readInLoop : Nat → Bool → World → Option World
  | 0, _, _ => none
  | _ + 1, true, s => some (startReadInLoop s)
  | depth + 1, false, s => runInLoop (readInLoop depth false) s loopThread .stopReadInLoop

/-- `startRead` and `stopRead`. -/
def switchRead (depth : Nat) (tid : ThreadId) (on : Bool) (s : World) : Option World :=
  runInLoop (readInLoop depth on) s tid (readFunctor on)

/-- The next functor of the loop: of its batch, or of the queue once the batch is done. -/
def World.pop (s : World) : Option (Functor × World) :=
  match s.functors, s.pendingFunctors with
  | f :: fs, _ => some (f, { s with functors := fs })
  | [], f :: fs => some (f, { s with functors := fs, pendingFunctors := [] })
  | [], [] => none

inductive ReadStep
  /-- `startRead()` or `stopRead()` from a thread. -/
  | call (tid : ThreadId) (on : Bool)
  /-- The loop turns to its next functor, if there is one. -/
  | runFunctor
  deriving DecidableEq

def ReadStep.isCall : ReadStep → Bool
  | .call _ _ => true
  | .runFunctor => false

/-- The connection, and the in-loop parts that have run, in their order. -/
structure Reads where
  world : World
  ran : List Bool := []

/-- One step; `none` is a call that does not come back.  Nothing but the two in-loop parts is
    ever queued here. -/
def Reads.step (depth : Nat) (x : Reads) : ReadStep → Option Reads
  | .call tid on =>
    (switchRead depth tid on x.world).map fun t =>
      ⟨t, if tid = loopThread then x.ran ++ [on] else x.ran⟩
  | .runFunctor =>
    match x.world.pop with
    | none => some x
    | some (.startReadInLoop, s) => (readInLoop depth true s).map fun t => ⟨t, x.ran ++ [true]⟩
    | some (.stopReadInLoop, s) => (readInLoop depth false s).map fun t => ⟨t, x.ran ++ [false]⟩
    | some _ => none

/-- Calls and turns of the loop in any order, and then the loop until all of them have run. -/
def settle (as : List ReadStep) : List ReadStep := as ++ List.replicate as.length .runFunctor

/-- Every in-loop part comes to its end, and the last one decides. -/
def TakesEffect (s : World) (as : List ReadStep) : Prop :=
  ∃ depth x, run (Reads.step depth) { world := s } (settle as) = some x ∧
    x.world.queue = [] ∧ x.ran.length = as.countP ReadStep.isCall ∧
    (∀ on, x.ran.getLast? = some on →
      x.world.conn.reading = on ∧ x.world.conn.channel.isReading = on) ∧
    x.world.conn.channel.isWriting = s.conn.channel.isWriting

variable {s : World} {x y : Reads} {depth n : Nat}

/-! ## The in-loop parts -/

/-- `stopReadInLoop` does not return, however deep it may call itself. -/
theorem readInLoop_stop (depth : Nat) (s : World) : readInLoop depth false s = none := by
  induction depth with
  | zero => rfl
  | succ depth ih =>
      show runInLoop (readInLoop depth false) s loopThread .stopReadInLoop = none
      rw [runInLoop, if_pos rfl, ih]

/-- The calls of the connection's own machine, with any room at all; where that one has an
    overflow, this one does not come back. -/
theorem switchRead_eq (depth : Nat) (tid : ThreadId) (on : Bool) (s : World) :
    switchRead (depth + 1) tid on s =
      if on then some (startRead s tid)
      else if tid = loopThread then none else some (stopRead s tid) := by
  unfold switchRead runInLoop startRead stopRead
  by_cases htid : tid = loopThread
  · cases on with
    | true => simp [htid, readInLoop]
    | false => simp [htid, readInLoop_stop]
  · cases on with
    | true => simp [htid, readFunctor]
    | false => simp [htid, readFunctor]

theorem startReadInLoop_queue (s : World) : (startReadInLoop s).queue = s.queue := by
  unfold startReadInLoop
  split <;> rfl

/-- Reading is on, in the flag and in the channel, and writing is as before. -/
theorem startReadInLoop_effect (s : World) :
    (startReadInLoop s).conn.reading = true ∧ (startReadInLoop s).conn.channel.isReading = true ∧
      (startReadInLoop s).conn.channel.isWriting = s.conn.channel.isWriting := by
  unfold startReadInLoop
  split
  · have hevents : (s.onChannel Channel.enableReading).conn.channel.events =
        { s.conn.channel.events with read := true } := Channel.setEvents_events _ _ _
    refine ⟨rfl, ?_, ?_⟩
    · show (s.onChannel Channel.enableReading).conn.channel.events.read = true
      rw [hevents]
    · show (s.onChannel Channel.enableReading).conn.channel.events.write = s.conn.channel.events.write
      rw [hevents]
  next hon =>
    rw [not_or, Bool.not_eq_false, Bool.not_eq_false] at hon
    exact ⟨hon.1, hon.2, rfl⟩

theorem pop_eq_none_iff : s.pop = none ↔ s.queue = [] := by
  unfold World.pop World.queue
  split <;> simp_all

theorem pop_eq_some {f : Functor} {t : World} (h : s.pop = some (f, t)) :
    s.queue = f :: t.queue ∧ t.conn = s.conn := by
  unfold World.pop at h
  unfold World.queue
  split at h
  next fs hfs =>
    cases h
    rw [hfs]
    exact ⟨rfl, rfl⟩
  next fs hfs hpending =>
    cases h
    rw [hfs, hpending]
    exact ⟨(List.append_nil _).symm, rfl⟩
  · cases h

/-! ## Without `stopRead` -/

/-- After `n` calls of `startRead`: some have run, the others wait. -/
structure Started (s : World) (n : Nat) (x : Reads) : Prop where
  queue : ∀ f ∈ x.world.queue, f = .startReadInLoop
  count : x.ran.length + x.world.queue.length = n
  ran : ∀ on ∈ x.ran, on = true
  reading : x.ran ≠ [] → x.world.conn.reading = true ∧ x.world.conn.channel.isReading = true
  writing : x.world.conn.channel.isWriting = s.conn.channel.isWriting

/-- An in-loop part of `startRead` runs. -/
theorem Started.start {t : World} (h : Started s n x) (hqueue : ∀ f ∈ t.queue, f = .startReadInLoop)
    (hconn : t.conn = x.world.conn) {m : Nat} (hcount : x.ran.length + 1 + t.queue.length = m) :
    Started s m ⟨startReadInLoop t, x.ran ++ [true]⟩ := by
  obtain ⟨hreading, hchannel, hwriting⟩ := startReadInLoop_effect t
  refine ⟨?_, ?_, ?_, fun _ => ⟨hreading, hchannel⟩, ?_⟩
  · rw [startReadInLoop_queue]
    exact hqueue
  · rw [startReadInLoop_queue, List.length_append]
    exact hcount
  · intro on hon
    rcases List.mem_append.mp hon with hold | hnew
    · exact h.ran on hold
    · exact List.mem_singleton.mp hnew
  · rw [hwriting, hconn]
    exact h.writing

theorem Started.call (h : Started s n x) (tid : ThreadId) :
    ∃ y, Reads.step 1 x (.call tid true) = some y ∧ Started s (n + 1) y := by
  have hcount := h.count
  by_cases htid : tid = loopThread
  · refine ⟨⟨startReadInLoop x.world, x.ran ++ [true]⟩, ?_, h.start h.queue rfl (by omega)⟩
    simp [Reads.step, switchRead, runInLoop, htid, readInLoop]
  · refine ⟨⟨x.world.queueInLoop .startReadInLoop, x.ran⟩, ?_, ?_, ?_, h.ran, h.reading, h.writing⟩
    · simp [Reads.step, switchRead, runInLoop, htid, readFunctor]
    · intro f hf
      rw [queue_queueInLoop] at hf
      rcases List.mem_append.mp hf with hold | hnew
      · exact h.queue f hold
      · exact List.mem_singleton.mp hnew
    · show x.ran.length + (x.world.queueInLoop .startReadInLoop).queue.length = n + 1
      rw [queue_queueInLoop, List.length_append, List.length_singleton]
      omega

/-- The loop's next functor, of those that wait. -/
theorem Started.runFunctor (h : Started s n x) :
    ∃ y, Reads.step 1 x .runFunctor = some y ∧ Started s n y ∧
      y.world.queue.length = x.world.queue.length - 1 := by
  cases hpop : x.world.pop with
  | none =>
      refine ⟨x, by simp [Reads.step, hpop], h, ?_⟩
      rw [pop_eq_none_iff.mp hpop]
      rfl
  | some next =>
      obtain ⟨f, t⟩ := next
      obtain ⟨hqueue, hconn⟩ := pop_eq_some hpop
      obtain rfl : f = .startReadInLoop := h.queue f (by rw [hqueue]; exact List.mem_cons_self)
      have hcount := h.count
      rw [hqueue, List.length_cons] at hcount
      refine ⟨⟨startReadInLoop t, x.ran ++ [true]⟩, by simp [Reads.step, hpop, readInLoop],
        h.start (fun f hf => h.queue f ?_) hconn (by omega), ?_⟩
      · rw [hqueue]
        exact List.mem_cons_of_mem _ hf
      · rw [startReadInLoop_queue, hqueue]
        rfl

theorem Started.run {as : List ReadStep} (h : Started s n x) (hstart : ∀ tid, .call tid false ∉ as) :
    ∃ y, run (Reads.step 1) x as = some y ∧ Started s (n + as.countP ReadStep.isCall) y := by
  induction as generalizing x n with
  | nil => exact ⟨x, rfl, h⟩
  | cons a as ih =>
      have hrest : ∀ tid, .call tid false ∉ as := fun tid hmem => hstart tid (List.mem_cons_of_mem a hmem)
      cases a with
      | call tid on =>
          obtain rfl : on = true := by
            by_contra hoff
            rw [Bool.not_eq_true] at hoff
            exact hstart tid (by rw [hoff]; exact List.mem_cons_self)
          obtain ⟨y, hy, hcall⟩ := h.call tid
          obtain ⟨z, hz, hend⟩ := ih hcall hrest
          refine ⟨z, run_cons_eq_some.mpr ⟨y, hy, hz⟩, ?_⟩
          rw [List.countP_cons_of_pos rfl]
          convert hend using 1
          omega
      | runFunctor =>
          obtain ⟨y, hy, hrun, -⟩ := h.runFunctor
          obtain ⟨z, hz, hend⟩ := ih hrun hrest
          refine ⟨z, run_cons_eq_some.mpr ⟨y, hy, hz⟩, ?_⟩
          rw [List.countP_cons_of_neg Bool.false_ne_true]
          exact hend

/-- Enough turns of the loop empty the queue. -/
theorem Started.drain {k : Nat} (h : Started s n x) (hk : x.world.queue.length ≤ k) :
    ∃ y, Youth.Lib.run (Reads.step 1) x (List.replicate k .runFunctor) = some y ∧ Started s n y ∧
      y.world.queue = [] := by
  induction k generalizing x with
  | zero => exact ⟨x, rfl, h, List.length_eq_zero_iff.mp (by omega)⟩
  | succ k ih =>
      obtain ⟨y, hy, hrun, hlength⟩ := h.runFunctor
      obtain ⟨z, hz, hend, hempty⟩ := ih hrun (by omega)
      exact ⟨z, run_cons_eq_some.mpr ⟨y, hy, hz⟩, hend, hempty⟩

theorem takesEffect_of_starts {as : List ReadStep} (hidle : s.queue = [])
    (hstart : ∀ tid, .call tid false ∉ as) : TakesEffect s as := by
  have hinit : Started s 0 { world := s } := by
    refine ⟨?_, ?_, fun _ hon => absurd hon List.not_mem_nil, fun hran => absurd rfl hran, rfl⟩
    · rw [hidle]
      exact fun _ hf => absurd hf List.not_mem_nil
    · show 0 + s.queue.length = 0
      rw [hidle]
      rfl
  obtain ⟨y, hy, hcalls⟩ := hinit.run hstart
  have hlength := hcalls.count
  have hle : as.countP ReadStep.isCall ≤ as.length := List.countP_le_length
  obtain ⟨z, hz, hend, hempty⟩ := hcalls.drain (k := as.length) (by omega)
  have hcount := hend.count
  rw [hempty, List.length_nil] at hcount
  refine ⟨1, z, run_append_eq_some.mpr ⟨y, hy, hz⟩, hempty, by omega, fun on hon => ?_, hend.writing⟩
  have hmem := List.mem_of_getLast? hon
  rw [hend.ran on hmem]
  exact hend.reading (List.ne_nil_of_mem hmem)

/-! ## With `stopRead` -/

/-- A `stopReadInLoop` in the queue never gets out of it. -/
theorem stop_mem_of_step {a : ReadStep} (hstep : Reads.step depth x a = some y)
    (h : .stopReadInLoop ∈ x.world.queue) : .stopReadInLoop ∈ y.world.queue := by
  cases a with
  | call tid on =>
      obtain ⟨t, ht, rfl⟩ := Option.map_eq_some_iff.mp hstep
      unfold switchRead runInLoop at ht
      split at ht
      · cases depth with
        | zero => cases ht
        | succ depth =>
            cases on with
            | true =>
                cases ht
                rw [startReadInLoop_queue]
                exact h
            | false =>
                rw [readInLoop_stop] at ht
                cases ht
      · cases ht
        rw [queue_queueInLoop]
        exact List.mem_append_left _ h
  | runFunctor =>
      simp only [Reads.step] at hstep
      split at hstep
      · cases hstep
        exact h
      next t hpop =>
        obtain ⟨u, hu, rfl⟩ := Option.map_eq_some_iff.mp hstep
        rw [(pop_eq_some hpop).1] at h
        have hrest : .stopReadInLoop ∈ t.queue := (List.mem_cons.mp h).resolve_left (by decide)
        cases depth with
        | zero => cases hu
        | succ depth =>
            cases hu
            rw [startReadInLoop_queue]
            exact hrest
      next t hpop =>
        obtain ⟨u, hu, -⟩ := Option.map_eq_some_iff.mp hstep
        rw [readInLoop_stop] at hu
        cases hu
      · cases hstep

/-- A call of `stopRead` that comes back has only queued something. -/
theorem stop_mem_of_call {tid : ThreadId} (hstep : Reads.step depth x (.call tid false) = some y) :
    .stopReadInLoop ∈ y.world.queue := by
  obtain ⟨t, ht, rfl⟩ := Option.map_eq_some_iff.mp hstep
  unfold switchRead runInLoop at ht
  split at ht
  · rw [readInLoop_stop] at ht
    cases ht
  · cases ht
    rw [queue_queueInLoop]
    exact List.mem_append_right _ (List.mem_singleton_self _)

theorem stop_mem_of_run {as : List ReadStep} (hrun : run (Reads.step depth) x as = some y)
    (h : .stopReadInLoop ∈ x.world.queue ∨ ∃ tid, .call tid false ∈ as) :
    .stopReadInLoop ∈ y.world.queue := by
  induction as generalizing x with
  | nil =>
      cases hrun
      exact h.resolve_right fun ⟨_, hmem⟩ => absurd hmem List.not_mem_nil
  | cons a as ih =>
      obtain ⟨z, hz, hrest⟩ := run_cons_eq_some.mp hrun
      refine ih hrest ?_
      rcases h with hold | ⟨tid, hmem⟩
      · exact .inl (stop_mem_of_step hz hold)
      · rcases List.mem_cons.mp hmem with rfl | hlater
        · exact .inl (stop_mem_of_call hz)
        · exact .inr ⟨tid, hlater⟩

/-- The calls take effect iff none of them is `stopRead`. -/
theorem takesEffect_iff (s : World) (hidle : s.queue = []) (as : List ReadStep) :
    TakesEffect s as ↔ ∀ tid, .call tid false ∉ as := by
  refine ⟨?_, takesEffect_of_starts hidle⟩
  rintro ⟨depth, x, hrun, hempty, -⟩ tid hmem
  have hstop := stop_mem_of_run hrun (.inr ⟨tid, List.mem_append_left _ hmem⟩)
  rw [hempty] at hstop
  cases hstop

/-- A connection that is up, with nothing waiting. -/
def upConnection : World := connectEstablished (newConnection 1 3 Epoll.empty false false 0) []

theorem takesEffect_two_threads : TakesEffect upConnection
    [.call 1 true, .call loopThread true, .runFunctor, .call 2 true] :=
  (takesEffect_iff upConnection (by decide +kernel) _).mpr (by simp)

/-- A single `stopRead` in the loop thread: no depth of calls is enough. -/
theorem stopRead_overflows :
    upConnection.conn.state = .kConnected ∧
      (∀ depth, switchRead depth loopThread false upConnection = none) ∧
      ¬ TakesEffect upConnection [.call loopThread false] := by
  have hnone : ∀ depth, switchRead depth loopThread false upConnection = none := by
    intro depth
    rw [switchRead, runInLoop, if_pos rfl, readInLoop_stop]
  refine ⟨by decide +kernel, hnone, ?_⟩
  rintro ⟨depth, x, hrun, -⟩
  obtain ⟨y, hy, -⟩ := run_cons_eq_some.mp hrun
  simp [Reads.step, hnone] at hy

end TcpConnection
end Youth.Net
