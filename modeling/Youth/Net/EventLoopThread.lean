/-
  Youth.Net.EventLoopThread

  The thread that owns an event loop (`youth/net/EventLoopThread.cpp`), and `quit()`.

  `startLoop()` returns as soon as the loop is published in `m_loop`, which is before the
  thread calls `loop()`; `loop()` clears `m_quit` first.  `quit()` sets `m_quit` and wakes
  nobody, and the loop thread reads it only between two polls.  A request made before
  `loop()` is therefore lost, and one that finds the thread in `epoll_wait` waits for the
  poll to end by itself: `quit_not_lost` says that these two are the only cases.

  Left out: the wait of `startLoop()` for `m_loop` (a caller has the loop once it is
  published), the callback of the new thread, `m_exit` (never read) and the join.
-/

import Youth.Lib.Machine
import Youth.Net.EventLoop.Basic

namespace Youth.Net
namespace EventLoopThread

open Youth.Lib

/-- Where the thread is in `threadFunc`. -/
inductive Place
  /-- Before `m_loop` is set. -/
  | starting
  /-- `m_loop` is set, `loop()` is not called yet. -/
  | published
  /-- Inside `loop()`. -/
  | looping
  /-- `loop()` has returned. -/
  | left
  /-- `m_loop` is null again. -/
  | ended
  deriving DecidableEq, Repr

structure World (φ : Type) where
  loop : EventLoop.World φ := {}
  place : Place := .starting
  /-- A call of `quit()` has returned. -/
  quitReturned : Bool := false

inductive Action (φ : Type)
  | publish
  /-- The thread calls `loop()`. -/
  | enterLoop
  /-- Another thread calls `quit()`, as the destructor does. -/
  | quit
  /-- Any other step of the loop and of the threads that use it. -/
  | run (a : EventLoop.Action φ)
  | finish

variable {φ : Type}

/-- `m_loop != nullptr`. -/
def Place.hasLoop : Place → Bool
  | .published => true
  | .looping => true
  | .left => true
  | _ => false

/-- `loop()` has returned. -/
def isIdle : EventLoop.Phase φ → Bool
  | .idle => true
  | _ => false

/-- The calls that are actions of their own here. -/
def isCall : EventLoop.Action φ → Bool
  | .loop => true
  | .quit => true
  | _ => false

def step (s : World φ) : Action φ → Option (World φ)
  | .publish => if s.place = .starting then some { s with place := .published } else none
  | .enterLoop =>
    if s.place = .published then
      -- `loop()` clears `m_quit`, whatever was asked for before
      (EventLoop.step s.loop .loop).map fun loop => { s with loop := loop, place := .looping }
    else none
  | .quit =>
    if s.place.hasLoop then
      -- the flag is set, and a poll is not woken up
      (EventLoop.step s.loop .quit).map fun loop => { s with loop := loop, quitReturned := true }
    else none
  | .run a =>
    if s.place.hasLoop ∧ isCall a = false then
      (EventLoop.step s.loop a).map fun loop =>
        { s with
          loop := loop
          place := if s.place = .looping ∧ isIdle loop.phase then .left else s.place }
    else none
  | .finish => if s.place = .left then some { s with place := .ended } else none

/-- The steps, one constructor for each. -/
inductive Moves (s : World φ) : Action φ → World φ → Prop
  | publish (h : s.place = .starting) : Moves s .publish { s with place := .published }
  | enterLoop (loop : EventLoop.World φ) (h : s.place = .published)
      (hloop : EventLoop.step s.loop .loop = some loop) :
      Moves s .enterLoop { s with loop := loop, place := .looping }
  | quit (h : s.place.hasLoop = true) :
      Moves s .quit { s with loop := { s.loop with quit := true }, quitReturned := true }
  | run (a : EventLoop.Action φ) (loop : EventLoop.World φ) (place : Place)
      (h : s.place.hasLoop = true) (ha : isCall a = false)
      (hloop : EventLoop.step s.loop a = some loop)
      (hplace : place = s.place ∨ s.place = .looping ∧ place = .left) :
      Moves s (.run a) { s with loop := loop, place := place }
  | finish (h : s.place = .left) : Moves s .finish { s with place := .ended }

theorem step_moves {s t : World φ} {a : Action φ} (h : step s a = some t) : Moves s a t := by
  cases a with
  | publish =>
      obtain ⟨hplace, ht⟩ := Option.ite_none_right_eq_some.mp h
      cases ht
      exact .publish hplace
  | enterLoop =>
      obtain ⟨hplace, hstep⟩ := Option.ite_none_right_eq_some.mp h
      obtain ⟨loop, hloop, rfl⟩ := Option.map_eq_some_iff.mp hstep
      exact .enterLoop loop hplace hloop
  | quit =>
      obtain ⟨hplace, ht⟩ := Option.ite_none_right_eq_some.mp h
      cases ht
      exact .quit hplace
  | run a =>
      obtain ⟨hguard, hstep⟩ := Option.ite_none_right_eq_some.mp h
      obtain ⟨loop, hloop, rfl⟩ := Option.map_eq_some_iff.mp hstep
      apply Moves.run a loop _ hguard.1 hguard.2 hloop
      split
      · rename_i hleft
        exact .inr ⟨hleft.1, rfl⟩
      · exact .inl rfl
  | finish =>
      obtain ⟨hplace, ht⟩ := Option.ite_none_right_eq_some.mp h
      cases ht
      exact .finish hplace

/-! ## How the loop thread comes to the poll -/

theorem loopStep_cases {s t : EventLoop.World φ} {a : EventLoop.Action φ}
    (ha : isCall a = false) (h : EventLoop.loopStep s a = some t) :
    t.quit = s.quit ∧ (t.phase = .poll → s.phase = .test ∧ s.quit = false) ∧
      s.phase ≠ .idle ∧ t.waking = s.waking := by
  unfold EventLoop.loopStep at h
  split at h
  · cases ha
  · rename_i hphase
    cases h
    refine ⟨rfl, fun hpoll => ⟨hphase, ?_⟩, by simp [hphase], rfl⟩
    cases hquit : s.quit with
    | false => rfl
    | true => simp [hquit] at hpoll
  · rename_i hphase
    obtain ⟨-, ht⟩ := Option.ite_none_right_eq_some.mp h
    cases ht
    exact ⟨rfl, by simp, by simp [hphase], rfl⟩
  · rename_i active rest hphase
    cases h
    cases active <;> exact ⟨rfl, by simp, by simp [hphase], rfl⟩
  · rename_i hphase
    cases h
    exact ⟨rfl, by simp, by simp [hphase], rfl⟩
  · rename_i hphase
    cases h
    exact ⟨rfl, by simp, by simp [hphase], rfl⟩
  · rename_i hphase
    cases h
    exact ⟨rfl, by simp, by simp [hphase], rfl⟩
  · rename_i hphase
    cases h
    exact ⟨rfl, by simp, by simp [hphase], rfl⟩
  · cases h

/-- A step that is no call of `loop()` or `quit()` leaves `m_quit` alone, and the loop thread is
    at the poll after it only if it was there, or at the test with `m_quit` clear. -/
theorem loop_cases {s t : EventLoop.World φ} {a : EventLoop.Action φ} (ha : isCall a = false)
    (h : EventLoop.step s a = some t) :
    t.quit = s.quit ∧
    (t.phase = .poll → s.phase = .poll ∧ s.eventfd ≤ t.eventfd ∨ s.quit = false) ∧
    (s.phase = .idle → loopThread ∉ s.waking → t.phase = .idle ∧ loopThread ∉ t.waking) := by
  have hqueue (tid : ThreadId) (cb : φ) (hcall : s.mayCall tid = true) :
      (EventLoop.queueInLoop s tid cb).quit = s.quit ∧
      (EventLoop.queueInLoop s tid cb).phase = s.phase ∧
      (EventLoop.queueInLoop s tid cb).eventfd = s.eventfd ∧
      (s.phase = .idle → loopThread ∉ s.waking →
        loopThread ∉ (EventLoop.queueInLoop s tid cb).waking) := by
    unfold EventLoop.queueInLoop
    dsimp only
    split
    · refine ⟨rfl, rfl, rfl, fun hidle hout => ?_⟩
      have htid : loopThread ≠ tid := by
        rintro rfl
        simp [EventLoop.World.mayCall, EventLoop.World.inUserCode, hidle] at hcall
      simp [hout, htid]
    · exact ⟨rfl, rfl, rfl, fun _ hout => hout⟩
  cases a with
  | loop => cases ha
  | quit => cases ha
  | queueInLoop tid cb =>
      obtain ⟨hcall, ht⟩ := Option.ite_none_right_eq_some.mp h
      cases ht
      obtain ⟨hquit, hphase, hfd, hout⟩ := hqueue tid cb hcall
      rw [hquit, hphase, hfd]
      exact ⟨rfl, fun hpoll => .inl ⟨hpoll, Nat.le_refl _⟩, fun hidle hnot => ⟨hidle, hout hidle hnot⟩⟩
  | runInLoop tid cb =>
      obtain ⟨hcall, ht⟩ := Option.ite_none_right_eq_some.mp h
      cases ht
      unfold EventLoop.runInLoop
      split
      · exact ⟨rfl, fun hpoll => .inl ⟨hpoll, Nat.le_refl _⟩, fun hidle hnot => ⟨hidle, hnot⟩⟩
      · obtain ⟨hquit, hphase, hfd, hout⟩ := hqueue tid cb hcall
        rw [hquit, hphase, hfd]
        exact ⟨rfl, fun hpoll => .inl ⟨hpoll, Nat.le_refl _⟩,
          fun hidle hnot => ⟨hidle, hout hidle hnot⟩⟩
  | wakeup tid =>
      obtain ⟨-, ht⟩ := Option.ite_none_right_eq_some.mp h
      cases ht
      refine ⟨rfl, fun hpoll => .inl ⟨hpoll, Nat.le_succ _⟩, fun hidle hnot => ⟨hidle, ?_⟩⟩
      exact fun hmem => hnot (List.mem_of_mem_erase hmem)
  | _ =>
      obtain ⟨-, hloop⟩ := Option.ite_none_left_eq_some.mp h
      obtain ⟨hquit, hpoll, hbusy, -⟩ := loopStep_cases ha hloop
      exact ⟨hquit, fun hp => .inr (hpoll hp).2, fun hidle _ => absurd hidle hbusy⟩

/-! ## The request to quit -/

/-- `quit()` has returned, and the loop thread is at `epoll_wait` with `m_quit` cleared again or
    with nothing on the eventfd. -/
def Lost (s : World φ) : Prop :=
  s.quitReturned = true ∧ s.loop.phase = .poll ∧ (s.loop.quit = false ∨ s.loop.eventfd = 0)

/-- `quit()` is called after `loop()` has cleared `m_quit`, and not on a thread at `epoll_wait` with
    nothing on the eventfd. -/
def Heeded (s : World φ) (a : Action φ) : Prop :=
  a = .quit → s.place ≠ .published ∧ (s.loop.phase = .poll → 0 < s.loop.eventfd)

/-- What holds of the thread in every state: before `loop()` it is in none of the loop's
    functions. -/
def Home (s : World φ) : Prop :=
  s.place = .starting ∨ s.place = .published → s.loop.phase = .idle ∧ loopThread ∉ s.loop.waking

theorem home_step {s t : World φ} {a : Action φ} (hs : Home s) (h : step s a = some t) : Home t := by
  cases step_moves h with
  | publish hplace => exact fun _ => hs (.inl hplace)
  | enterLoop loop hplace hloop => exact fun hp => by simp at hp
  | quit hplace => exact hs
  | run a loop place hplace ha hloop hnext =>
      intro hp
      have hsame : place = s.place := by
        rcases hnext with heq | ⟨-, hleft⟩
        · exact heq
        · rw [hleft] at hp
          simp at hp
      rw [hsame] at hp
      obtain ⟨hidle, hout⟩ := hs hp
      exact (loop_cases ha hloop).2.2 hidle hout
  | finish hplace => exact fun hp => by simp at hp

/-- The request is still there: `m_quit` is set, and a thread at the poll has something on the
    eventfd. -/
def Heard (s : World φ) : Prop :=
  s.quitReturned = true →
    s.loop.quit = true ∧ s.place ≠ .published ∧ s.place ≠ .starting ∧
      (s.loop.phase = .poll → 0 < s.loop.eventfd)

theorem Heard.not_lost {s : World φ} (hs : Heard s) : ¬Lost s := by
  rintro ⟨hreturned, hpoll, hlost⟩
  obtain ⟨hquit, -, -, hfd⟩ := hs hreturned
  rcases hlost with hclear | hnone
  · rw [hquit] at hclear
    cases hclear
  · have hpos := hfd hpoll
    omega

theorem heard_step {s t : World φ} {a : Action φ} (hs : Heard s) (ha : Heeded s a)
    (h : step s a = some t) : Heard t := by
  cases step_moves h with
  | publish hplace => exact fun hreturned => absurd hplace (hs hreturned).2.2.1
  | enterLoop loop hplace hloop => exact fun hreturned => absurd hplace (hs hreturned).2.1
  | quit hplace =>
      intro _
      obtain ⟨hinside, hfd⟩ := ha rfl
      refine ⟨rfl, hinside, fun hstarting => ?_, hfd⟩
      have hnone : Place.hasLoop .starting = true := hstarting ▸ hplace
      cases hnone
  | run a loop place hplace hcall hloop hnext =>
      intro hreturned
      obtain ⟨hquit, hpublished, hstarting, hfd⟩ := hs hreturned
      obtain ⟨hsame, hpoll, -⟩ := loop_cases hcall hloop
      refine ⟨hsame.trans hquit, ?_, ?_, fun hp => ?_⟩
      · rcases hnext with rfl | ⟨-, rfl⟩
        · exact hpublished
        · simp
      · rcases hnext with rfl | ⟨-, rfl⟩
        · exact hstarting
        · simp
      · rcases hpoll hp with ⟨hbefore, hle⟩ | hclear
        · exact Nat.lt_of_lt_of_le (hfd hbefore) hle
        · rw [hquit] at hclear
          cases hclear
  | finish hplace =>
      intro hreturned
      obtain ⟨hquit, -, -, hfd⟩ := hs hreturned
      exact ⟨hquit, by simp, by simp, hfd⟩

/-- A request that comes too early is cleared, and one that finds the thread at an idle poll is
    not noticed. -/
theorem lost_of_not_heeded {s t : World φ} {a : Action φ} (hs : Home s) (ha : ¬Heeded s a)
    (h : step s a = some t) :
    ∃ bs u, (∀ b ∈ bs, b ≠ .quit) ∧ run step t bs = some u ∧ Lost u := by
  obtain ⟨rfl, hnot⟩ := Classical.not_imp.mp ha
  cases step_moves h with
  | quit hplace =>
      by_cases hpublished : s.place = .published
      · -- `loop()` clears `m_quit`, and the test lets the thread through
        obtain ⟨hidle, hout⟩ := hs (.inr hpublished)
        refine ⟨[.enterLoop, .run .testQuit],
          { s with
            loop := { s.loop with quit := false, phase := .poll }, place := .looping
            quitReturned := true }, by simp, ?_, rfl, rfl, .inl rfl⟩
        simp [run, step, hpublished, EventLoop.step, hout, EventLoop.loopStep, hidle, Place.hasLoop,
          isCall, isIdle]
      · have hpoll : ¬(s.loop.phase = .poll → 0 < s.loop.eventfd) := fun hfd => hnot ⟨hpublished, hfd⟩
        obtain ⟨hphase, hfd⟩ := Classical.not_imp.mp hpoll
        exact ⟨[], _, by simp, rfl, rfl, hphase, .inr (Nat.eq_zero_of_not_pos hfd)⟩

/-- In every run in which `quit()` is called after `loop()` has cleared `m_quit`, and not on a
    thread at `epoll_wait` with nothing on the eventfd, no request to quit is lost.  The condition
    is exact: whatever happens until the next call of `quit()`, no request is lost after a step
    exactly when the step meets it. -/
theorem quit_not_lost (acts : List (Action φ)) (s : World φ) (h : run step {} acts = some s)
    (hheeded : Along step Heeded {} acts) :
    ¬Lost s ∧
    ∀ a t, step s a = some t →
      ((∀ bs u, (∀ b ∈ bs, b ≠ .quit) → run step t bs = some u → ¬Lost u) ↔ Heeded s a) := by
  have hs : Heard s :=
    run_invariant_along (fun _ _ _ => heard_step) (fun hreturned => by cases hreturned) h hheeded
  have hhome : Home s := run_invariant (fun _ _ _ => home_step) (fun _ => ⟨rfl, by simp⟩) h
  refine ⟨hs.not_lost, fun a t hstep => ⟨fun hnever => ?_, fun ha bs u hbs hrun => ?_⟩⟩
  · apply Classical.byContradiction
    intro hnot
    obtain ⟨bs, u, hbs, hrun, hlost⟩ := lost_of_not_heeded hhome hnot hstep
    exact hnever bs u hbs hrun hlost
  · apply Heard.not_lost
    refine run_invariant_of (fun s b t hb hs hstep => heard_step hs ?_ hstep) hbs
      (heard_step hs ha hstep) hrun
    exact fun heq => absurd heq hb

/-- `quit()` finds the thread at its test: the loop ends. -/
theorem quit_not_lost_test :
    ∃ s : World Unit, run step {} [.publish, .enterLoop, .quit, .run .testQuit] = some s ∧
      s.place = .left ∧ ¬Lost s := by
  refine ⟨_, rfl, rfl, (quit_not_lost [.publish, .enterLoop, .quit, .run .testQuit] _ rfl ?_).1⟩
  refine ⟨by simp [Heeded], fun t ht => ⟨by simp [Heeded], fun u hu => ⟨fun _ => ?_, fun _ _ => ?_⟩⟩⟩
  · cases ht
    cases hu
    exact ⟨by decide, fun hpoll => by cases hpoll⟩
  · exact ⟨by simp [Heeded], fun _ _ => trivial⟩

/-- `quit()` between `startLoop()` and `loop()`, as the destructor may call it, is lost; so is
    one that finds the thread in `epoll_wait`. -/
theorem quit_lost :
    (∃ s : World Unit, run step {} [.publish, .quit, .enterLoop, .run .testQuit] = some s ∧ Lost s) ∧
    ∃ s : World Unit, run step {} [.publish, .enterLoop, .run .testQuit, .quit] = some s ∧ Lost s :=
  ⟨⟨_, rfl, rfl, rfl, .inl rfl⟩, ⟨_, rfl, rfl, rfl, .inr rfl⟩⟩

end EventLoopThread
end Youth.Net
