/-
  Youth.Net.TcpConnection.Unwatched

  A connection that is down has no interest left in the poller, as long as nobody starts
  reading again.

  `sendInLoop` gives up on a connection that is down; `startReadInLoop` has no such test.
  It can run late: the call may come from the callback of the close itself, from a user who
  still holds the connection, or out of the queue.  `ReadsWhileUp` rules these out, and the
  invariant `Unwatched` carries the rest.
-/

import Youth.Net.TcpConnection.DownOnce

namespace Youth.Net
namespace TcpConnection

open Youth.Lib

instance (s : World) : Decidable s.up := inferInstanceAs (Decidable (_ ∨ _))

instance (s : World) : Decidable s.down := inferInstanceAs (Decidable (_ = _))

/-- A functor that starts reading, or whose callback makes `calls`, does not start reading on a
    connection that is down or that it takes down. -/
def RunsWhileUp (s : World) (calls : List Call) : Functor → Prop
  | .startReadInLoop => ¬ s.down
  | .forceCloseInLoop => s.up → .startRead ∉ calls
  | .writeCompleteCallback => s.down → .startRead ∉ calls
  | .highWaterMarkCallback _ => s.down → .startRead ∉ calls
  | .connectDestroyed => s.conn.state = .kConnected → .startRead ∉ calls
  | _ => True

instance (s : World) (calls : List Call) : (f : Functor) → Decidable (RunsWhileUp s calls f)
  | .startReadInLoop => inferInstanceAs (Decidable (¬ s.down))
  | .forceCloseInLoop => inferInstanceAs (Decidable (s.up → .startRead ∉ calls))
  | .writeCompleteCallback => inferInstanceAs (Decidable (s.down → .startRead ∉ calls))
  | .highWaterMarkCallback _ => inferInstanceAs (Decidable (s.down → .startRead ∉ calls))
  | .connectDestroyed =>
    inferInstanceAs (Decidable (s.conn.state = .kConnected → .startRead ∉ calls))
  | .sendInLoop _ _ => isTrue trivial
  | .shutdownInLoop => isTrue trivial
  | .stopReadInLoop => isTrue trivial

/-- No `startReadInLoop` runs while the connection is down: called in the loop thread, out of
    the queue, or by a callback that runs in that state or has just brought it about. -/
def ReadsWhileUp (s : World) : Action → Prop
  | .call tid c => c = .startRead → tid = loopThread → ¬ s.down
  | .handleEvent revents i =>
    (revents.epollhup = true ∧ ¬ revents.epollin = true → .startRead ∉ i.closeCalls) ∧
      (revents.epollin = true ∨ revents.epollpri = true ∨ revents.epollrdhup = true →
        s.down ∨ (revents.epollhup = true ∧ ¬ revents.epollin = true) ∨ i.read = .ok [] →
          .startRead ∉ i.readCalls)
  | .runFunctor _ calls => ∀ f ∈ s.functors.head?, RunsWhileUp s calls f
  | _ => True

instance (s : World) : (a : Action) → Decidable (ReadsWhileUp s a)
  | .call tid c => inferInstanceAs (Decidable (c = .startRead → tid = loopThread → ¬ s.down))
  | .handleEvent revents i =>
    inferInstanceAs (Decidable
      ((revents.epollhup = true ∧ ¬ revents.epollin = true → .startRead ∉ i.closeCalls) ∧
        (revents.epollin = true ∨ revents.epollpri = true ∨ revents.epollrdhup = true →
          s.down ∨ (revents.epollhup = true ∧ ¬ revents.epollin = true) ∨ i.read = .ok [] →
            .startRead ∉ i.readCalls)))
  | .runFunctor _ calls => inferInstanceAs (Decidable (∀ f ∈ s.functors.head?, RunsWhileUp s calls f))
  | .connectEstablished _ => isTrue trivial
  | .swapFunctors => isTrue trivial
  | .forceCloseTimer => isTrue trivial
  | .removeConnection => isTrue trivial

/-- The invariant: poller and channel agree, and a connection that is down wants nothing.  One
    that has not come up has had no occasion to queue more than `startRead` and `stopRead`. -/
structure Unwatched (s : World) : Prop where
  registered : s.epoll.Registered s.conn.channel
  fresh : s.conn.state = .kConnecting →
    s.conn.channel.isWriting = false ∧ s.closing = 0 ∧
      ∀ f ∈ s.queue, f = .startReadInLoop ∨ f = .stopReadInLoop
  down : s.down → s.conn.channel.events = kNoneEvent

variable {s t u : World}

theorem Unwatched.of_edit (h : Unwatched s) (e : Edit s t) : Unwatched t := by
  cases e with
  | data e =>
      constructor
      · rw [e.epoll, e.channel]
        exact h.registered
      · rw [e.state, e.channel, e.closing, e.queue]
        exact h.fresh
      · rw [World.down, e.state, e.channel]
        exact h.down
  | queue f hup hread hdestroy =>
      exact ⟨h.registered, fun hstate => absurd hstate (not_connecting_of_up hup), h.down⟩
  | disconnecting hup =>
      refine ⟨h.registered, ?_, ?_⟩
      · intro hstate
        cases hstate
      · intro hdown
        cases hdown
  | interest write hup =>
      exact ⟨(Channel.setEvents_registered h.registered _).1,
        fun hstate => absurd hstate (not_connecting_of_up hup),
        fun hdown => absurd hdown (not_down_of_up hup)⟩

theorem Unwatched.of_edits (h : Unwatched s) (e : Edits s t) : Unwatched t := by
  induction e with
  | refl => exact h
  | tail _ hedit ih => exact ih.of_edit hedit

/-! ## Reading on and off -/

/-- Interest in reading, for a connection that is not down. -/
theorem enableReading_unwatched (h : Unwatched s) (hs : ¬ s.down) :
    Unwatched (s.onChannel Channel.enableReading) where
  registered := (Channel.setEvents_registered h.registered _).1
  fresh := by
    intro hstate
    obtain ⟨hwriting, hrest⟩ := h.fresh hstate
    refine ⟨?_, hrest⟩
    show (Channel.enableReading s.conn.channel s.epoll).val.1.events.write = false
    rw [Channel.enableReading, Channel.setEvents_events]
    exact hwriting
  down := fun hdown => absurd hdown hs

theorem startReadInLoop_unwatched (h : Unwatched s) (hs : ¬ s.down) :
    Unwatched (startReadInLoop s) ∧ ¬ (startReadInLoop s).down := by
  unfold startReadInLoop
  split
  · have hon := enableReading_unwatched h hs
    exact ⟨⟨hon.registered, hon.fresh, hon.down⟩, hs⟩
  · exact ⟨h, hs⟩

/-- A functor of these two in the queue. -/
theorem queueInLoop_unwatched (h : Unwatched s) {f : Functor}
    (hf : f = .startReadInLoop ∨ f = .stopReadInLoop) : Unwatched (s.queueInLoop f) where
  registered := h.registered
  fresh := by
    intro hstate
    obtain ⟨hwriting, hclosing, hqueue⟩ := h.fresh hstate
    refine ⟨hwriting, hclosing, fun g hg => ?_⟩
    rw [queue_queueInLoop] at hg
    rcases List.mem_append.mp hg with hg | hg
    · exact hqueue g hg
    · rw [List.mem_singleton.mp hg]
      exact hf
  down := h.down

theorem stopReadInLoop_edits : Edits s (stopReadInLoop s) :=
  .single (.data ⟨rfl, rfl, rfl, rfl, rfl, rfl⟩)

theorem call_unwatched (h : Unwatched s) (tid : ThreadId) {c : Call}
    (hc : c = .startRead → tid = loopThread → ¬ s.down) :
    Unwatched (call tid s c) ∧ ((call tid s c).down ↔ s.down) := by
  by_cases hlisted : c.Listed
  · have hedits := call_edits (s := s) tid hlisted
    exact ⟨h.of_edits hedits, hedits.down_iff⟩
  · -- what is left are the two that switch reading
    cases c with
    | startRead =>
        simp only [call, startRead]
        split
        next htid =>
          have hs := hc rfl htid
          obtain ⟨hstart, hup⟩ := startReadInLoop_unwatched h hs
          exact ⟨hstart, iff_of_false hup hs⟩
        · exact ⟨queueInLoop_unwatched h (.inl rfl), Iff.rfl⟩
    | stopRead =>
        simp only [call, stopRead]
        split
        · exact ⟨h.of_edits stopReadInLoop_edits, Iff.rfl⟩
        · exact ⟨queueInLoop_unwatched h (.inr rfl), Iff.rfl⟩
    | send | sendBuffer | shutdown | forceClose | forceCloseWithDelay | retrieve =>
        exact absurd ⟨by simp, by simp⟩ hlisted

/-- The calls of a callback, all in one state of the connection as far as this matters. -/
theorem calls_unwatched (h : Unwatched s) {calls : List Call} (hc : .startRead ∈ calls → ¬ s.down) :
    Unwatched (calls.foldl (call loopThread) s) ∧
      ((calls.foldl (call loopThread) s).down ↔ s.down) := by
  refine List.foldlRecOn (motive := fun u : World => Unwatched u ∧ (u.down ↔ s.down)) calls
    (call loopThread) ⟨h, Iff.rfl⟩ fun u hu c hmem => ?_
  obtain ⟨hcall, hiff⟩ := call_unwatched hu.1 loopThread (c := c) (by
    rintro rfl _
    rw [hu.2]
    exact hc hmem)
  exact ⟨hcall, hiff.trans hu.2⟩

theorem userCallback_unwatched (h : Unwatched s) (c : Callback) (calls : List Call)
    (hc : .startRead ∈ calls → ¬ s.down) :
    Unwatched (userCallback s c calls) ∧ ((userCallback s c calls).down ↔ s.down) :=
  calls_unwatched (s := s.callback c) ⟨h.registered, h.fresh, h.down⟩ hc

/-! ## Going down -/

/-- State, events and callback of a disconnection. -/
theorem disconnect_unwatched (h : Unwatched s) {calls : List Call} (hc : .startRead ∉ calls) :
    Unwatched (connectionCallback ((s.setState .kDisconnected).onChannel Channel.disableAll) calls) ∧
      (connectionCallback ((s.setState .kDisconnected).onChannel Channel.disableAll) calls).down := by
  have hoff : Unwatched ((s.setState .kDisconnected).onChannel Channel.disableAll) := by
    refine ⟨(Channel.setEvents_registered h.registered _).1, ?_, ?_⟩
    · intro hstate
      cases hstate
    · exact fun _ => Channel.setEvents_events _ _ _
  obtain ⟨hcalled, hiff⟩ := userCallback_unwatched hoff
    (.connection (((s.setState .kDisconnected).onChannel Channel.disableAll).conn.state = .kConnected))
    calls fun hmem => absurd hmem hc
  exact ⟨hcalled, hiff.mpr rfl⟩

theorem handleClose_unwatched (h : Unwatched s) {calls : List Call} (hc : .startRead ∉ calls) :
    Unwatched (handleClose s calls) ∧ (handleClose s calls).down := by
  have hcheck : Unwatched (s.check (s.conn.state = .kConnected ∨ s.conn.state = .kDisconnecting)
      .handleClose) := ⟨h.registered, h.fresh, h.down⟩
  obtain ⟨hoff, hdown⟩ := disconnect_unwatched hcheck hc
  refine ⟨⟨hoff.registered, ?_, hoff.down⟩, hdown⟩
  exact fun hstate => absurd (hdown.symm.trans hstate) (by decide)

theorem remove_unwatched (h : Unwatched s) : Unwatched (s.onChannel Channel.remove) :=
  ⟨(Channel.remove_registered h.registered).1, h.fresh, h.down⟩

theorem connectDestroyed_unwatched (h : Unwatched s) {calls : List Call}
    (hc : s.conn.state = .kConnected → .startRead ∉ calls) :
    Unwatched (connectDestroyed s calls) ∧ (s.down → (connectDestroyed s calls).down) := by
  unfold connectDestroyed
  split
  next hstate =>
    obtain ⟨hoff, hdown⟩ := disconnect_unwatched h (hc hstate)
    exact ⟨remove_unwatched hoff, fun _ => hdown⟩
  · exact ⟨remove_unwatched h, fun hdown => hdown⟩

/-! ## Events and functors -/

/-- Zero bytes are read only where none have come. -/
theorem eq_nil_of_readFd {b : Buffer} {r : Except Nat (List UInt8)} (h : (b.readFd r).val.1 = .ok 0) :
    r = .ok [] := by
  cases r with
  | error errno => cases h
  | ok data =>
      have hcount : (b.readFd (.ok data)).val.1 = .ok data.length := by
        simp only [Buffer.readFd]
        split <;> rfl
      rw [hcount] at h
      rw [List.length_eq_zero_iff.mp (Except.ok.inj h)]

theorem handleRead_unwatched (h : Unwatched s) (r : Except Nat (List UInt8)) {calls : List Call}
    (hc : s.down ∨ r = .ok [] → .startRead ∉ calls) :
    Unwatched (handleRead s r calls) ∧ (s.down → (handleRead s r calls).down) := by
  have hread (x : Checked Buffer.Assert (Except Nat Nat × Buffer)) :
      Unwatched { s with
        conn := { s.conn with inputBuffer := x.val.2 }
        faults := s.faults ++ x.faults.map .buffer } := ⟨h.registered, h.fresh, h.down⟩
  simp only [handleRead]
  split
  · obtain ⟨hcalled, hiff⟩ := userCallback_unwatched (hread (s.conn.inputBuffer.readFd r)) .message
      calls fun hmem hdown => hc (.inl hdown) hmem
    exact ⟨hcalled, hiff.mpr⟩
  next hzero =>
    have hend := eq_nil_of_readFd hzero
    obtain ⟨hclosed, hdown⟩ := handleClose_unwatched (hread (s.conn.inputBuffer.readFd r)) (hc (.inr hend))
    exact ⟨hclosed, fun _ => hdown⟩
  · exact ⟨hread _, fun hdown => hdown⟩

theorem Unwatched.up_of_writing (h : Unwatched s) (hwriting : s.conn.channel.isWriting = true) :
    s.up := by
  rcases connecting_or_up_or_down s with hconnecting | hup | hdown
  · rw [(h.fresh hconnecting).1] at hwriting
    cases hwriting
  · exact hup
  · rw [Channel.isWriting, h.down hdown] at hwriting
    cases hwriting

theorem handleWrite_unwatched (h : Unwatched s) (r : WriteResult) :
    Unwatched (handleWrite s r) ∧ (s.down → (handleWrite s r).down) := by
  have hedits := handleWrite_edits h.up_of_writing r
  exact ⟨h.of_edits hedits, hedits.down⟩

theorem handleEvent_unwatched (h : Unwatched s) {revents : Revents} {i : Inputs}
    (hc : ReadsWhileUp s (.handleEvent revents i)) :
    Unwatched (handleEvent s revents i) ∧ (s.down → (handleEvent s revents i).down) := by
  obtain ⟨hclose, hread⟩ := hc
  have hwrite {u : World} (hu : Unwatched u ∧ (s.down → u.down)) :
      Unwatched (if revents.epollout then handleWrite u i.write else u) ∧
        (s.down → (if revents.epollout then handleWrite u i.write else u).down) := by
    split
    · obtain ⟨hwritten, hdown⟩ := handleWrite_unwatched hu.1 i.write
      exact ⟨hwritten, fun hs => hdown (hu.2 hs)⟩
    · exact hu
  simp only [handleEvent]
  refine hwrite ?_
  by_cases hhup : revents.epollhup = true ∧ ¬ revents.epollin = true
  · -- a hang-up takes the connection down before anything is read
    obtain ⟨hclosed, hdown⟩ := handleClose_unwatched h (hclose hhup)
    rw [if_pos hhup]
    split
    next hin =>
      obtain ⟨hafter, hstays⟩ := handleRead_unwatched hclosed i.read fun _ => hread hin (.inr (.inl hhup))
      exact ⟨hafter, fun _ => hstays hdown⟩
    · exact ⟨hclosed, fun _ => hdown⟩
  · rw [if_neg hhup]
    split
    next hin =>
      refine handleRead_unwatched h i.read fun hnot => hread hin ?_
      rcases hnot with hdown | hend
      · exact .inl hdown
      · exact .inr (.inr hend)
    · exact ⟨h, fun hdown => hdown⟩

theorem runFunctor_unwatched {f : Functor} {fs : List Functor} (hfs : s.functors = f :: fs)
    (h : Unwatched s) (r : WriteResult) {calls : List Call}
    (hc : ReadsWhileUp s (.runFunctor r calls)) :
    Unwatched (runFunctor { s with functors := fs } f r calls) ∧
      (s.down → (runFunctor { s with functors := fs } f r calls).down) := by
  have hqueue : s.queue = f :: { s with functors := fs }.queue := by simp [World.queue, hfs]
  have hpop : Unwatched { s with functors := fs } := by
    refine ⟨h.registered, fun hstate => ?_, h.down⟩
    obtain ⟨hwriting, hclosing, hall⟩ := h.fresh hstate
    refine ⟨hwriting, hclosing, fun g hg => hall g ?_⟩
    rw [hqueue]
    exact List.mem_cons_of_mem _ hg
  -- before the connection is established only reading can have been asked for
  have hestablished (hread : f ≠ .startReadInLoop) (hstop : f ≠ .stopReadInLoop) :
      s.conn.state ≠ .kConnecting := by
    intro hstate
    have hmem : f ∈ s.queue := by
      rw [hqueue]
      exact List.mem_cons_self
    rcases (h.fresh hstate).2.2 f hmem with hf | hf
    · exact hread hf
    · exact hstop hf
  have hedited {t : World} (e : Edits { s with functors := fs } t) :
      Unwatched t ∧ (s.down → t.down) := ⟨hpop.of_edits e, fun hdown => e.down hdown⟩
  have hcalled (c : Callback) (hquiet : s.down → .startRead ∉ calls) :
      Unwatched (userCallback { s with functors := fs } c calls) ∧
        (s.down → (userCallback { s with functors := fs } c calls).down) := by
    obtain ⟨hafter, hiff⟩ := userCallback_unwatched hpop c calls
      fun hmem hdown => hquiet hdown hmem
    exact ⟨hafter, hiff.mpr⟩
  have hfunctor : RunsWhileUp s calls f := hc f (by rw [hfs]; rfl)
  cases f with
  | sendInLoop tid message =>
      exact hedited (sendMessage_edits (s := { s with functors := fs })
        (hestablished (by simp) (by simp)) tid message r)
  | shutdownInLoop => exact hedited shutdownInLoop_edits
  | forceCloseInLoop =>
      simp only [runFunctor, forceCloseInLoop]
      split
      next hup =>
        obtain ⟨hclosed, hdown⟩ := handleClose_unwatched hpop (hfunctor hup)
        exact ⟨hclosed, fun _ => hdown⟩
      · exact ⟨hpop, fun hdown => hdown⟩
  | startReadInLoop =>
      exact ⟨(startReadInLoop_unwatched hpop hfunctor).1, fun hdown => absurd hdown hfunctor⟩
  | stopReadInLoop => exact hedited stopReadInLoop_edits
  | writeCompleteCallback => exact hcalled .writeComplete hfunctor
  | highWaterMarkCallback size => exact hcalled (.highWaterMark size) hfunctor
  | connectDestroyed => exact connectDestroyed_unwatched hpop hfunctor

theorem connectEstablished_unwatched (h : Unwatched s) (calls : List Call) :
    Unwatched (connectEstablished s calls) := by
  have hset : Unwatched ((s.check (s.conn.state = .kConnecting) .connectEstablished).setState
      .kConnected) := by
    refine ⟨h.registered, ?_, ?_⟩
    · intro hstate
      cases hstate
    · intro hdown
      cases hdown
  have hup : ¬ ((s.check (s.conn.state = .kConnecting) .connectEstablished).setState
      .kConnected).down := by
    intro hdown
    cases hdown
  exact (userCallback_unwatched (enableReading_unwatched hset hup) _ _ fun _ => hup).1

/-- One step keeps the invariant, and a connection that is down stays down. -/
theorem step_unwatched (h : Unwatched s) {a : Action} (ha : ReadsWhileUp s a)
    (hstep : step s a = some t) : Unwatched t ∧ (s.down → t.down) := by
  obtain ⟨-, hsteps⟩ := steps_of_step hstep
  cases hsteps with
  | connectEstablished calls hstate =>
      exact ⟨connectEstablished_unwatched h calls,
        fun hdown => absurd (hdown.symm.trans hstate) (by decide)⟩
  | call tid c =>
      obtain ⟨hcall, hiff⟩ := call_unwatched h tid ha
      exact ⟨hcall, hiff.mpr⟩
  | handleEvent revents i hidle hkernel => exact handleEvent_unwatched h ha
  | swapFunctors hidle =>
      have hqueue : { s with functors := s.pendingFunctors, pendingFunctors := [] }.queue = s.queue := by
        simp [World.queue, hidle]
      have hsame : Edits s { s with functors := s.pendingFunctors, pendingFunctors := [] } :=
        .single (.data ⟨rfl, rfl, rfl, rfl, rfl, hqueue⟩)
      exact ⟨h.of_edits hsame, hsame.down⟩
  | runFunctor r calls f fs hfs => exact runFunctor_unwatched hfs h r ha
  | forceCloseTimer hdelayed =>
      have hfired : Edits s { s with delayed := s.delayed - 1 } :=
        .single (.data ⟨rfl, rfl, rfl, rfl, rfl, rfl⟩)
      have hedits : Edits s (forceClose _) := hfired.trans forceClose_edits
      exact ⟨h.of_edits hedits, hedits.down⟩
  | removeConnection hclosing =>
      refine ⟨⟨h.registered, fun hstate => ?_, h.down⟩, fun hdown => hdown⟩
      -- a connection that has not come up has not been closed
      exact absurd (h.fresh hstate).2.1 hclosing.ne'

theorem newConnection_unwatched {self fd : Nat} {epoll : Epoll} {wc hw : Bool} {mark : Nat}
    (hmap : epoll.channelMap fd = none) (hkernel : epoll.kernel fd = none) :
    Unwatched (newConnection self fd epoll wc hw mark) where
  registered := ⟨hmap, hkernel⟩
  fresh := fun _ => ⟨rfl, rfl, fun _ hmem => absurd hmem List.not_mem_nil⟩
  down := fun hdown => by cases hdown

/-- The kernel watches for what the channel wants. -/
theorem Unwatched.kernel (h : Unwatched s) (hdown : s.down) {events : Events} {self : Nat}
    (hkernel : s.epoll.kernel s.conn.channel.fd = some (events, self)) : events = kNoneEvent := by
  have hreg := h.registered
  unfold Epoll.Registered at hreg
  split at hreg
  · rw [hreg.2] at hkernel
    cases hkernel
  · rw [hreg.2] at hkernel
    cases hkernel
    exact h.down hdown
  · rw [hreg.2] at hkernel
    cases hkernel

/-- A run that is down at some point, and in which reading is never started after that, stays
    down, and neither its channel nor the kernel has an interest in it. -/
theorem stays_unwatched (self fd : Nat) {epoll : Epoll} (wc hw : Bool) (mark : Nat)
    (hmap : epoll.channelMap fd = none) (hkernel : epoll.kernel fd = none)
    {before after : List Action} {s t : World}
    (hrun : run step (newConnection self fd epoll wc hw mark) before = some s)
    (hdown : s.conn.state = .kDisconnected) (hmore : run step s after = some t)
    (hreads : Along step ReadsWhileUp (newConnection self fd epoll wc hw mark) (before ++ after)) :
    t.conn.state = .kDisconnected ∧ t.conn.channel.events = kNoneEvent ∧
      ∀ events self, t.epoll.kernel t.conn.channel.fd = some (events, self) → events = kNoneEvent := by
  have hs : Unwatched s := run_invariant_along
    (fun _ _ _ h ha hstep => (step_unwatched h ha hstep).1) (newConnection_unwatched hmap hkernel)
    hrun hreads.of_append
  have hsuffix : Along step ReadsWhileUp s after := hreads.drop hrun
  have ht : Unwatched t ∧ t.down := run_invariant_along (I := fun u => Unwatched u ∧ u.down)
    (fun _ _ _ h ha hstep =>
      ⟨(step_unwatched h.1 ha hstep).1, (step_unwatched h.1 ha hstep).2 h.2⟩)
    ⟨hs, hdown⟩ hmore hsuffix
  exact ⟨ht.2, ht.1.down ht.2, fun _ _ hentry => ht.1.kernel ht.2 hentry⟩

/-- Up, and down because the peer has closed. -/
def peerCloses : List Action := [.connectEstablished [.startRead], .handleEvent { epollin := true } {}]

/-- What the owner does then. -/
def destroys : List Action := [.removeConnection, .swapFunctors, .runFunctor (.ok 0) []]

theorem stays_unwatched_peerCloses :
    ∃ s t, run step (newConnection 1 3 Epoll.empty false false 0) peerCloses = some s ∧
      s.conn.state = .kDisconnected ∧ run step s destroys = some t ∧
      t.conn.channel.events = kNoneEvent := by
  have hsome : ((run step (newConnection 1 3 Epoll.empty false false 0) peerCloses).bind fun s =>
      (run step s destroys).map fun _ => s.conn.state) = some .kDisconnected := by decide +kernel
  obtain ⟨s, hrun, hrest⟩ := Option.bind_eq_some_iff.mp hsome
  obtain ⟨t, hmore, hstate⟩ := Option.map_eq_some_iff.mp hrest
  exact ⟨s, t, hrun, hstate, hmore,
    (stays_unwatched 1 3 false false 0 rfl rfl hrun hstate hmore (by decide +kernel)).2.1⟩

/-- Reading started on a connection that is destroyed: it is in the map and in the kernel's set
    again. -/
theorem startRead_watches_again :
    ∃ s t, run step (newConnection 1 3 Epoll.empty false false 0) (peerCloses ++ destroys) = some s ∧
      s.conn.state = .kDisconnected ∧ s.epoll.channelMap 3 = none ∧
      step s (.call loopThread .startRead) = some t ∧
      t.conn.state = .kDisconnected ∧ t.conn.channel.events = ⟨true, false⟩ ∧
      t.epoll.channelMap 3 = some 1 ∧ t.epoll.kernel 3 = some (⟨true, false⟩, 1) := by
  have hsome : ((run step (newConnection 1 3 Epoll.empty false false 0) (peerCloses ++ destroys)).bind
      fun s => (step s (.call loopThread .startRead)).map fun t =>
        ((s.conn.state, s.epoll.channelMap 3), (t.conn.state, t.conn.channel.events),
          t.epoll.channelMap 3, t.epoll.kernel 3)) =
      some ((.kDisconnected, none), (.kDisconnected, ⟨true, false⟩), some 1, some (⟨true, false⟩, 1)) := by
    decide +kernel
  obtain ⟨s, hrun, hrest⟩ := Option.bind_eq_some_iff.mp hsome
  obtain ⟨t, hstep, hfields⟩ := Option.map_eq_some_iff.mp hrest
  simp only [Prod.mk.injEq] at hfields
  obtain ⟨⟨hdown, habsent⟩, ⟨hstays, hevents⟩, hmap, hkernel⟩ := hfields
  exact ⟨s, t, hrun, hdown, habsent, hstep, hstays, hevents, hmap, hkernel⟩

end TcpConnection
end Youth.Net
