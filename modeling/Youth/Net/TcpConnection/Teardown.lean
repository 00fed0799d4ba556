/-
  Youth.Net.TcpConnection.Teardown

  What `connectDestroyed` leaves behind, in every state it can be run in.

  `Tracked` holds in every state after `connectEstablished`: channel and poller agree,
  and a connection that is down has no events and its user has been told.  From a
  connected or a disconnected state `connectDestroyed` then finishes the teardown.  From
  `kDisconnecting` (a `shutdown` or `forceClose` that has not come to its end) it does
  not: only the test for `kConnected` stands in front of the state change, so the state
  stays, the channel keeps its events and nobody is told.
-/

import Youth.Lib.Machine
import Youth.Net.TcpConnection.Basic

namespace Youth.Net
namespace TcpConnection

open Youth.Lib

/-- The calls a teardown has to cope with: all but `startRead` and `stopRead`. -/
def Call.Listed (c : Call) : Prop := c ≠ .startRead ∧ c ≠ .stopRead

/-- The steps a teardown has to cope with: sends, shutdown, the two force closes and the
    events, with any results. -/
def Action.Listed : Action → Prop
  | .connectEstablished calls => ∀ c ∈ calls, c.Listed
  | .call _ c => c.Listed
  | .handleEvent _ i => (∀ c ∈ i.closeCalls, c.Listed) ∧ ∀ c ∈ i.readCalls, c.Listed
  | .runFunctor _ calls => ∀ c ∈ calls, c.Listed
  | _ => True

/-- Everything is taken down: the state, the events, the two entries of the poller; and
    the user knows. -/
structure TornDown (s : World) : Prop where
  state : s.conn.state = .kDisconnected
  events : s.conn.channel.events = kNoneEvent
  absent : s.epoll.channelMap s.conn.channel.fd = none ∧ s.epoll.kernel s.conn.channel.fd = none
  told : .connection false ∈ s.callbacks

/-- The functors that wait in the loop. -/
def World.queue (s : World) : List Functor := s.functors ++ s.pendingFunctors

/-- The invariant behind it. -/
structure Tracked (s : World) : Prop where
  registered : s.epoll.Registered s.conn.channel
  established : s.conn.state ≠ .kConnecting
  down : s.conn.state = .kDisconnected →
    s.conn.channel.events = kNoneEvent ∧ .connection false ∈ s.callbacks
  noStartRead : .startReadInLoop ∉ s.queue

/-- `t` has the registration of `s`, and nothing else that `Tracked` speaks of is lost. -/
structure SameWatch (s t : World) : Prop where
  epoll : t.epoll = s.epoll
  channel : t.conn.channel = s.conn.channel
  state : t.conn.state = s.conn.state ∨
    s.conn.state ≠ .kDisconnected ∧ t.conn.state = .kDisconnecting
  callbacks : ∀ c ∈ s.callbacks, c ∈ t.callbacks
  queue : .startReadInLoop ∈ t.queue → .startReadInLoop ∈ s.queue

variable {s t u : World}

theorem SameWatch.refl (s : World) : SameWatch s s :=
  ⟨rfl, rfl, .inl rfl, fun _ h => h, fun h => h⟩

theorem SameWatch.trans (h : SameWatch s t) (h' : SameWatch t u) : SameWatch s u where
  epoll := h'.epoll.trans h.epoll
  channel := h'.channel.trans h.channel
  state := by
    rcases h'.state with hu | ⟨ht, hu⟩
    · rcases h.state with ht | ⟨hs, ht⟩
      · exact .inl (hu.trans ht)
      · exact .inr ⟨hs, hu.trans ht⟩
    · rcases h.state with hts | ⟨hs, -⟩
      · exact .inr ⟨by rw [← hts]; exact ht, hu⟩
      · exact .inr ⟨hs, hu⟩
  callbacks := fun c hc => h'.callbacks c (h.callbacks c hc)
  queue := fun hmem => h.queue (h'.queue hmem)

theorem Tracked.of_same (h : Tracked s) (e : SameWatch s t) : Tracked t where
  registered := by
    rw [e.epoll, e.channel]
    exact h.registered
  established := by
    rcases e.state with ht | ⟨-, ht⟩
    · rw [ht]
      exact h.established
    · rw [ht]
      decide
  down := by
    intro hdown
    rcases e.state with ht | ⟨-, ht⟩
    · obtain ⟨hevents, htold⟩ := h.down (ht.symm.trans hdown)
      exact ⟨by rw [e.channel]; exact hevents, e.callbacks _ htold⟩
    · exact absurd (ht.symm.trans hdown) (by decide)
  noStartRead := fun hmem => h.noStartRead (e.queue hmem)

/-! ## Steps that leave the registration alone -/

theorem queueInLoop_sameWatch {f : Functor} (hf : f ≠ .startReadInLoop) :
    SameWatch s (s.queueInLoop f) where
  epoll := rfl
  channel := rfl
  state := .inl rfl
  callbacks := fun _ h => h
  queue := by
    intro hmem
    have hqueue : (s.queueInLoop f).queue = s.queue ++ [f] :=
      (List.append_assoc _ _ _).symm
    rw [hqueue] at hmem
    rcases List.mem_append.mp hmem with hmem | hmem
    · exact hmem
    · exact absurd (List.mem_singleton.mp hmem).symm hf

theorem setState_sameWatch (h : s.conn.state ≠ .kDisconnected) :
    SameWatch s (s.setState .kDisconnecting) :=
  ⟨rfl, rfl, .inr ⟨h, rfl⟩, fun _ h => h, fun h => h⟩

theorem shutdownInLoop_sameWatch : SameWatch s (shutdownInLoop s) := by
  unfold shutdownInLoop
  split
  · exact SameWatch.refl s
  · exact ⟨rfl, rfl, .inl rfl, fun _ h => h, fun h => h⟩

theorem alive_of_up (h : s.conn.state = .kConnected ∨ s.conn.state = .kDisconnecting) :
    s.conn.state ≠ .kDisconnected := by
  rcases h with h | h <;> (rw [h]; decide)

theorem shutdown_sameWatch (tid : ThreadId) : SameWatch s (shutdown s tid) := by
  unfold shutdown
  split
  next hstate =>
    have halive := setState_sameWatch (alive_of_up (.inl hstate))
    split
    · exact halive.trans shutdownInLoop_sameWatch
    · exact halive.trans (queueInLoop_sameWatch (by decide))
  · exact SameWatch.refl s

theorem forceClose_sameWatch : SameWatch s (forceClose s) := by
  unfold forceClose
  split
  next hstate =>
    exact (setState_sameWatch (alive_of_up hstate)).trans (queueInLoop_sameWatch (by decide))
  · exact SameWatch.refl s

theorem forceCloseWithDelay_sameWatch : SameWatch s (forceCloseWithDelay s) := by
  unfold forceCloseWithDelay
  split
  next hstate =>
    obtain ⟨hepoll, hchannel, hst, hcallbacks, hqueue⟩ := setState_sameWatch (alive_of_up hstate)
    exact ⟨hepoll, hchannel, hst, hcallbacks, hqueue⟩
  · exact SameWatch.refl s

theorem writeDirectly_sameWatch (data : List UInt8) (r : WriteResult) :
    SameWatch s (writeDirectly s data r).1 := by
  unfold writeDirectly
  split
  · cases r with
    | ok n =>
        have hwritten : SameWatch s { s with
            written := s.written ++ data.take (min n data.length) } :=
          ⟨rfl, rfl, .inl rfl, fun _ h => h, fun h => h⟩
        dsimp only
        split
        · exact hwritten.trans (queueInLoop_sameWatch (f := .writeCompleteCallback) (by decide))
        · exact hwritten
    | error errno => exact SameWatch.refl s
  · exact SameWatch.refl s

/-! ## Steps on the channel -/

/-- A change of the events of a connection that is not down. -/
theorem setEvents_tracked (h : Tracked s) (halive : s.conn.state ≠ .kDisconnected)
    (events : Channel → Events) : Tracked (s.onChannel (Channel.setEvents events)) where
  registered := (Channel.setEvents_registered h.registered events).1
  established := h.established
  down := fun hdown => absurd hdown halive
  noStartRead := h.noStartRead

theorem appendOutput_tracked (h : Tracked s) (halive : s.conn.state ≠ .kDisconnected)
    (rest : List UInt8) : Tracked (appendOutput s rest) := by
  unfold appendOutput
  -- first the high-water mark, then the bytes, then the interest
  obtain ⟨s1, hs1, hsame, hstate⟩ : ∃ s1, (if s.conn.highWaterMark ≤
      s.conn.outputBuffer.readableBytes + rest.length ∧
      s.conn.outputBuffer.readableBytes < s.conn.highWaterMark ∧ s.conn.highWaterMarkCallback then
        s.queueInLoop (.highWaterMarkCallback (s.conn.outputBuffer.readableBytes + rest.length))
      else s) = s1 ∧ SameWatch s s1 ∧ s1.conn.state = s.conn.state := by
    split
    · exact ⟨_, rfl, queueInLoop_sameWatch (by simp), rfl⟩
    · exact ⟨_, rfl, SameWatch.refl s, rfl⟩
  simp only [hs1]
  have h2 : Tracked (s1.setOutput (s1.conn.outputBuffer.append rest)) :=
    (h.of_same hsame).of_same ⟨rfl, rfl, .inl rfl, fun _ h => h, fun h => h⟩
  split
  · exact h2
  · exact setEvents_tracked h2 (by rw [← hstate] at halive; exact halive) _

theorem sendInLoop_tracked (h : Tracked s) (data : List UInt8) (r : WriteResult) :
    Tracked (sendInLoop s data r) := by
  unfold sendInLoop
  split
  · exact h
  next halive =>
    have hsame := writeDirectly_sameWatch (s := s) data r
    have hstate : (writeDirectly s data r).1.conn.state ≠ .kDisconnected := by
      rcases hsame.state with hst | ⟨-, hst⟩
      · rw [hst]
        exact halive
      · rw [hst]
        decide
    dsimp only
    split
    · exact appendOutput_tracked (h.of_same hsame) hstate _
    · exact h.of_same hsame

theorem sendMessage_tracked (h : Tracked s) (tid : ThreadId) (message : List UInt8)
    (r : WriteResult) : Tracked (sendMessage s tid message r) :=
  (sendInLoop_tracked h message r).of_same ⟨rfl, rfl, .inl rfl, fun _ h => h, fun h => h⟩

theorem send_tracked (h : Tracked s) (tid : ThreadId) (message : List UInt8) (r : WriteResult) :
    Tracked (send s tid message r) := by
  unfold send
  split
  · have h1 : Tracked { s with sent := s.sent ++ [(tid, message)] } :=
      h.of_same ⟨rfl, rfl, .inl rfl, fun _ h => h, fun h => h⟩
    split
    · exact sendMessage_tracked h1 tid message r
    · exact h1.of_same (queueInLoop_sameWatch (by simp))
  · exact h

theorem call_tracked (h : Tracked s) (tid : ThreadId) {c : Call} (hc : c.Listed) :
    Tracked (call tid s c) := by
  cases c with
  | send message r => exact send_tracked h tid message r
  | sendBuffer buf r =>
      simp only [call, sendBuffer]
      split
      · exact send_tracked h tid buf.readable r
      · exact h
  | shutdown => exact h.of_same (shutdown_sameWatch tid)
  | forceClose => exact h.of_same forceClose_sameWatch
  | forceCloseWithDelay => exact h.of_same forceCloseWithDelay_sameWatch
  | startRead => exact absurd rfl hc.1
  | stopRead => exact absurd rfl hc.2
  | retrieve len => exact h.of_same ⟨rfl, rfl, .inl rfl, fun _ h => h, fun h => h⟩

theorem calls_tracked {calls : List Call} (hcalls : ∀ c ∈ calls, c.Listed) (h : Tracked s) :
    Tracked (calls.foldl (call loopThread) s) :=
  List.foldlRecOn calls (call loopThread) h fun _ hs c hc => call_tracked hs loopThread (hcalls c hc)

theorem userCallback_tracked {calls : List Call} (hcalls : ∀ c ∈ calls, c.Listed) (h : Tracked s)
    (c : Callback) : Tracked (userCallback s c calls) :=
  calls_tracked hcalls (h.of_same
    ⟨rfl, rfl, .inl rfl, fun _ h => List.mem_append_left _ h, fun h => h⟩)

/-! ## Going down -/

/-- A connection that is down stays down, whatever a callback calls. -/
theorem call_state_down (h : s.conn.state = .kDisconnected) (tid : ThreadId) {c : Call}
    (hc : c.Listed) : (call tid s c).conn.state = .kDisconnected := by
  cases c with
  | startRead => exact absurd rfl hc.1
  | stopRead => exact absurd rfl hc.2
  | retrieve len => exact h
  -- The others look at the state first
  | _ => simp [call, send, sendBuffer, shutdown, forceClose, forceCloseWithDelay, h]

theorem calls_state_down {calls : List Call} (hcalls : ∀ c ∈ calls, c.Listed)
    (h : s.conn.state = .kDisconnected) :
    (calls.foldl (call loopThread) s).conn.state = .kDisconnected :=
  List.foldlRecOn (motive := fun s : World => s.conn.state = .kDisconnected) calls (call loopThread)
    h fun _ hs c hc => call_state_down hs loopThread (hcalls c hc)

/-- State, events and callback of a disconnection, as `handleClose` and
    `connectDestroyed` make them. -/
theorem disconnect_tracked (h : Tracked s) {calls : List Call} (hcalls : ∀ c ∈ calls, c.Listed) :
    Tracked (connectionCallback ((s.setState .kDisconnected).onChannel Channel.disableAll) calls) ∧
      (connectionCallback ((s.setState .kDisconnected).onChannel Channel.disableAll)
        calls).conn.state = .kDisconnected := by
  have htold : Tracked (((s.setState .kDisconnected).onChannel Channel.disableAll).callback
      (.connection false)) := by
    refine ⟨(Channel.setEvents_registered h.registered _).1, ?_, ?_, h.noStartRead⟩
    · show StateE.kDisconnected ≠ .kConnecting
      decide
    · exact fun _ => ⟨Channel.setEvents_events _ _ _, List.mem_append_right _ List.mem_cons_self⟩
  exact ⟨calls_tracked hcalls htold, calls_state_down hcalls rfl⟩

theorem handleClose_tracked (h : Tracked s) {calls : List Call} (hcalls : ∀ c ∈ calls, c.Listed) :
    Tracked (handleClose s calls) := by
  have hcheck : Tracked (s.check (s.conn.state = .kConnected ∨ s.conn.state = .kDisconnecting)
      .handleClose) := h.of_same ⟨rfl, rfl, .inl rfl, fun _ h => h, fun h => h⟩
  exact (disconnect_tracked hcheck hcalls).1.of_same
    ⟨rfl, rfl, .inl rfl, fun _ h => List.mem_append_left _ h, fun h => h⟩

theorem remove_tracked (h : Tracked s) : Tracked (s.onChannel Channel.remove) where
  registered := (Channel.remove_registered h.registered).1
  established := h.established
  down := h.down
  noStartRead := h.noStartRead

theorem connectDestroyed_tracked (h : Tracked s) {calls : List Call}
    (hcalls : ∀ c ∈ calls, c.Listed) : Tracked (connectDestroyed s calls) := by
  unfold connectDestroyed
  split
  · exact remove_tracked (disconnect_tracked h hcalls).1
  · exact remove_tracked h

/-! ## Events and functors -/

theorem handleRead_tracked (h : Tracked s) (r : Except Nat (List UInt8)) {calls : List Call}
    (hcalls : ∀ c ∈ calls, c.Listed) : Tracked (handleRead s r calls) := by
  have hread (x : Checked Buffer.Assert (Except Nat Nat × Buffer)) :
      Tracked { s with
        conn := { s.conn with inputBuffer := x.val.2 }
        faults := s.faults ++ x.faults.map .buffer } :=
    h.of_same ⟨rfl, rfl, .inl rfl, fun _ h => h, fun h => h⟩
  simp only [handleRead]
  split
  · exact userCallback_tracked hcalls (hread _) .message
  · exact handleClose_tracked (hread _) hcalls
  · exact hread _

theorem drainOutput_sameWatch (r : WriteResult) : SameWatch s (drainOutput s r) := by
  cases r with
  | ok n => exact ⟨rfl, rfl, .inl rfl, fun _ h => h, fun h => h⟩
  | error errno => exact ⟨rfl, rfl, .inl rfl, fun _ h => h, fun h => h⟩

theorem outputDrained_sameWatch (s : World) :
    SameWatch (s.onChannel Channel.disableWriting) (outputDrained s) := by
  simp only [outputDrained]
  split
  · refine (queueInLoop_sameWatch (f := .writeCompleteCallback) (by decide)).trans ?_
    split
    · exact shutdownInLoop_sameWatch
    · exact SameWatch.refl _
  · split
    · exact shutdownInLoop_sameWatch
    · exact SameWatch.refl _

theorem handleWrite_tracked (h : Tracked s) (r : WriteResult) : Tracked (handleWrite s r) := by
  simp only [handleWrite]
  split
  next hwriting =>
    have hdrain := h.of_same (drainOutput_sameWatch r)
    split
    · exact hdrain
    · -- a channel with write interest belongs to a connection that is not down
      have halive : (drainOutput s r).conn.state ≠ .kDisconnected := by
        intro hdown
        have hevents := (hdrain.down hdown).1
        rw [(drainOutput_sameWatch r).channel] at hevents
        rw [Channel.isWriting, hevents] at hwriting
        exact absurd hwriting Bool.false_ne_true
      exact (setEvents_tracked hdrain halive _).of_same (outputDrained_sameWatch _)
  · exact h

theorem handleEvent_tracked (h : Tracked s) (revents : Revents) {i : Inputs}
    (hclose : ∀ c ∈ i.closeCalls, c.Listed) (hread : ∀ c ∈ i.readCalls, c.Listed) :
    Tracked (handleEvent s revents i) := by
  refine handleEvent_keeps ?_ ?_ ?_ h revents
  · exact fun s hs => handleClose_tracked hs hclose
  · exact fun s hs => handleRead_tracked hs i.read hread
  · exact fun s hs => handleWrite_tracked hs i.write

theorem runFunctor_tracked {f : Functor} {fs : List Functor} (hfs : s.functors = f :: fs)
    (h : Tracked s) (r : WriteResult) {calls : List Call} (hcalls : ∀ c ∈ calls, c.Listed) :
    Tracked (runFunctor { s with functors := fs } f r calls) := by
  have hpop : Tracked { s with functors := fs } := by
    refine h.of_same ⟨rfl, rfl, .inl rfl, fun _ h => h, fun hmem => ?_⟩
    have hqueue : s.queue = f :: { s with functors := fs }.queue := by simp [World.queue, hfs]
    rw [hqueue]
    exact List.mem_cons_of_mem _ hmem
  cases f with
  | sendInLoop tid message => exact sendMessage_tracked hpop tid message r
  | shutdownInLoop => exact hpop.of_same shutdownInLoop_sameWatch
  | forceCloseInLoop =>
      simp only [runFunctor, forceCloseInLoop]
      split
      · exact handleClose_tracked hpop hcalls
      · exact hpop
  | startReadInLoop =>
      -- nobody has queued one
      refine absurd ?_ h.noStartRead
      simp [World.queue, hfs]
  | stopReadInLoop => exact hpop.of_same ⟨rfl, rfl, .inl rfl, fun _ h => h, fun h => h⟩
  | writeCompleteCallback => exact userCallback_tracked hcalls hpop .writeComplete
  | highWaterMarkCallback size => exact userCallback_tracked hcalls hpop (.highWaterMark size)
  | connectDestroyed => exact connectDestroyed_tracked hpop hcalls

theorem step_tracked (h : Tracked s) {a : Action} (ha : a.Listed) (hstep : step s a = some t) :
    Tracked t := by
  obtain ⟨-, hsteps⟩ := steps_of_step hstep
  cases hsteps with
  | connectEstablished calls hstate => exact absurd hstate h.established
  | call tid c => exact call_tracked h tid ha
  | handleEvent revents i hidle hkernel => exact handleEvent_tracked h revents ha.1 ha.2
  | swapFunctors hidle =>
      refine h.of_same ⟨rfl, rfl, .inl rfl, fun _ h => h, fun hmem => ?_⟩
      simpa [World.queue, hidle] using hmem
  | runFunctor r calls f fs hfs => exact runFunctor_tracked hfs h r ha
  | forceCloseTimer hdelayed =>
      have hfired : Tracked { s with delayed := s.delayed - 1 } :=
        h.of_same ⟨rfl, rfl, .inl rfl, fun _ h => h, fun h => h⟩
      exact hfired.of_same forceClose_sameWatch
  | removeConnection hclosing =>
      have hclosed : Tracked { s with closing := s.closing - 1 } :=
        h.of_same ⟨rfl, rfl, .inl rfl, fun _ h => h, fun h => h⟩
      exact hclosed.of_same (queueInLoop_sameWatch (by decide))

/-- `connectEstablished` brings the connection under the invariant. -/
theorem connectEstablished_tracked {self fd : Nat} {epoll : Epoll} {wc hw : Bool} {mark : Nat}
    (hmap : epoll.channelMap fd = none) (hkernel : epoll.kernel fd = none) {calls : List Call}
    (hcalls : ∀ c ∈ calls, c.Listed) :
    Tracked (connectEstablished (newConnection self fd epoll wc hw mark) calls) := by
  have hreg : epoll.Registered (newConnection self fd epoll wc hw mark).conn.channel :=
    ⟨hmap, hkernel⟩
  refine userCallback_tracked hcalls ⟨?_, ?_, ?_, ?_⟩ _
  · exact (Channel.setEvents_registered hreg fun ch => { ch.events with read := true }).1
  · show StateE.kConnected ≠ .kConnecting
    decide
  · intro hdown
    have hup : StateE.kConnected = .kDisconnected := hdown
    cases hup
  · exact List.not_mem_nil

/-! ## The teardown -/

/-- In a tracked state the teardown is complete unless the state is `kDisconnecting`. -/
theorem tornDown_iff (h : Tracked s) {calls : List Call} (hcalls : ∀ c ∈ calls, c.Listed) :
    TornDown (connectDestroyed s calls) ↔ s.conn.state ≠ .kDisconnecting := by
  constructor
  · -- from `kDisconnecting` the state is not touched
    intro hdown hstate
    have hsame : (connectDestroyed s calls).conn.state = s.conn.state := by
      simp only [connectDestroyed, hstate]
      exact hstate
    have hcontra := hdown.state
    rw [hsame, hstate] at hcontra
    cases hcontra
  · -- otherwise the connection is down when its channel is removed
    intro hstate
    have hremoved {s : World} (h : Tracked s) (hdown : s.conn.state = .kDisconnected) :
        TornDown (s.onChannel Channel.remove) :=
      ⟨hdown, (h.down hdown).1, Channel.remove_absent h.registered, (h.down hdown).2⟩
    simp only [connectDestroyed]
    split
    · obtain ⟨hcalled, hdown⟩ := disconnect_tracked h hcalls
      exact hremoved hcalled hdown
    next hup =>
      have hdown : s.conn.state = .kDisconnected := by
        cases hs : s.conn.state with
        | kDisconnected => rfl
        | kConnecting => exact absurd hs h.established
        | kConnected => exact absurd hs hup
        | kDisconnecting => exact absurd hs hstate
      exact hremoved h hdown

/-- **Teardown.**  In every state that a connection can be in after `connectEstablished`,
    `connectDestroyed` completes the teardown iff no disconnection is under way. -/
theorem connectDestroyed_tornDown_iff (self fd : Nat) {epoll : Epoll} (wc hw : Bool) (mark : Nat)
    (hmap : epoll.channelMap fd = none) (hkernel : epoll.kernel fd = none)
    {upCalls downCalls : List Call} (hup : ∀ c ∈ upCalls, c.Listed)
    (hdown : ∀ c ∈ downCalls, c.Listed) {actions : List Action}
    (hactions : ∀ a ∈ actions, a.Listed) {s : World}
    (hrun : run step (connectEstablished (newConnection self fd epoll wc hw mark) upCalls) actions =
      some s) :
    TornDown (connectDestroyed s downCalls) ↔ s.conn.state ≠ .kDisconnecting := by
  have h : Tracked s := run_invariant_of (fun _ _ _ ha hs hstep => step_tracked hs ha hstep) hactions
    (connectEstablished_tracked hmap hkernel hup) hrun
  exact tornDown_iff h hdown

/-- Established, written to, closed by the peer: here the condition holds. -/
theorem connectDestroyed_tornDown_iff_closed :
    ∃ s, run step (connectEstablished (newConnection 1 3 Epoll.empty false false 0) [])
        [.call 1 (.send [1, 2] (.ok 0)), .handleEvent { epollin := true } {}] = some s ∧
      s.conn.state ≠ .kDisconnecting ∧ TornDown (connectDestroyed s []) := by
  have hsome : ((run step (connectEstablished (newConnection 1 3 Epoll.empty false false 0) [])
      [.call 1 (.send [1, 2] (.ok 0)), .handleEvent { epollin := true } {}]).map
      fun s => s.conn.state) = some .kDisconnected := by decide +kernel
  obtain ⟨s, hrun, hstate⟩ := Option.map_eq_some_iff.mp hsome
  have hne : s.conn.state ≠ .kDisconnecting := by
    rw [hstate]
    decide
  have hlisted : ∀ a ∈ [Action.call 1 (.send [1, 2] (.ok 0)),
      .handleEvent { epollin := true } {}], a.Listed := by
    simp [Action.Listed, Call.Listed]
  exact ⟨s, hrun, hne, (connectDestroyed_tornDown_iff 1 3 false false 0 rfl rfl
    (fun _ h => absurd h List.not_mem_nil) (fun _ h => absurd h List.not_mem_nil) hlisted hrun).mpr
    hne⟩

/-- After a `shutdown()` whose peer has not closed yet, `connectDestroyed` leaves the
    connection half up. -/
theorem connectDestroyed_not_tornDown :
    ¬∀ (actions : List Action) (s : World), (∀ a ∈ actions, a.Listed) →
      run step (connectEstablished (newConnection 1 3 Epoll.empty false false 0) []) actions =
        some s → TornDown (connectDestroyed s []) := by
  intro h
  have hsome : ((run step (connectEstablished (newConnection 1 3 Epoll.empty false false 0) [])
      [.call loopThread .shutdown]).map fun s => (connectDestroyed s []).conn.state) =
      some .kDisconnecting := by decide +kernel
  obtain ⟨s, hrun, hstate⟩ := Option.map_eq_some_iff.mp hsome
  have hdown := h [.call loopThread .shutdown] s (by simp [Action.Listed, Call.Listed]) hrun
  rw [hdown.state] at hstate
  cases hstate

end TcpConnection
end Youth.Net
