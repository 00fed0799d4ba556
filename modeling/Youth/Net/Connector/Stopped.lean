/-
  Youth.Net.Connector.Stopped

  Connections that come up after `stop()`.

  The last test of `handleWrite` reads `m_state`, which it has just set to `kConnected`,
  where `m_connect` was meant: the branch that closes the socket is never taken.  So a
  stopped connector keeps quiet exactly as long as no connect completes
  (`obeys_iff`).  `Synced` is what makes the other outcomes certain: a channel that the
  kernel reports on is an added one, so taking it out of the poller succeeds.
-/

import Youth.Net.Connector.Release

namespace Youth.Net
namespace Connector

open Youth.Lib

/-- The sockets given to `m_newConnectionCallback`. -/
def delivered (log : List SockCall) : List Nat :=
  log.filterMap fun
    | .newConnection sock => some sock
    | _ => none

/-- The event reports a finished connect: `SO_ERROR` is zero and it is no self-connect.
    (An error in the same event set has closed the socket before, which ends the process
    unless the number is in use again.) -/
def Completes (w : World) : Action → Prop
  | .handleEvent revents i =>
    revents.epollout = true ∧ i.err = false ∧ i.selfConnect = false ∧
      (i.reused = true ∨
        ¬(w.state = .kConnecting ∧ (revents.epollerr = true ∨ revents.pollnval = true)))
  | _ => False

/-- While `m_connect` is false nothing is delivered, and the socket of a connect that
    completes is closed. -/
def Obeys (w : World) (a : Action) : Prop :=
  ∀ w', step w a = some w' → w.connect = false →
    delivered w'.log = delivered w.log ∧
      (Completes w a → ∀ ch ∈ w.channel, .close ch.fd ∈ w'.log.drop w.log.length)

variable {w : World}

/-! ## What is delivered -/

theorem delivered_concat (log : List SockCall) (c : SockCall) (hc : ∀ sock, c ≠ .newConnection sock) :
    delivered (log ++ [c]) = delivered log := by
  cases c with
  | newConnection sock => exact absurd rfl (hc sock)
  | _ => simp [delivered]

theorem close_delivered (w : World) (sock : Nat) : delivered (close w sock).log = delivered w.log :=
  delivered_concat w.log (.close sock) (by simp)

theorem retry_delivered (w : World) (sock : Nat) : delivered (retry w sock).log = delivered w.log := by
  simp only [retry]
  split <;> exact close_delivered w sock

theorem connect_delivered (w : World) (errno : Errno) :
    delivered (connect w errno).log = delivered w.log := by
  have hcall : delivered (w.log ++ [.connect w.nextSock]) = delivered w.log :=
    delivered_concat w.log _ (by simp)
  cases errno with
  | zero | EINTR | EISCONN | EINPROGRESS =>
      exact (delivered_concat _ (.epollCtl w.nextSock) (by simp)).trans hcall
  | EAGAIN | EADDRINUSE | EADDRNOTAVAIL | ENETUNREACH | ECONNREFUSED =>
      exact (retry_delivered _ w.nextSock).trans hcall
  | EPERM | EBADF | EACCES | EFAULT | ENOTSOCK | EAFNOSUPPORT | EALREADY | other =>
      exact (close_delivered _ w.nextSock).trans hcall

theorem startInLoop_delivered (w : World) (errno : Errno) :
    delivered (startInLoop w errno).log = delivered w.log := by
  unfold startInLoop
  split
  · exact connect_delivered w errno
  · rfl

theorem removeAndResetChannel_delivered (w : World) (reused : Bool) :
    delivered (removeAndResetChannel w reused).1.log = delivered w.log := by
  have hcall (log : List SockCall) (fd : Nat) : delivered (log ++ [.epollCtl fd]) = delivered log :=
    delivered_concat log _ (by simp)
  have hoff (ch : Channel) : delivered (disableAll w ch reused).log = delivered w.log := by
    simp only [disableAll]
    split <;> exact hcall w.log ch.fd
  rcases Option.eq_none_or_eq_some w.channel with hch | ⟨ch, hch⟩
  · simp only [removeAndResetChannel, hch]
  · simp only [removeAndResetChannel, hch]
    split
    · simp only [remove]
      split
      · exact (hcall _ _).trans (hoff ch)
      · exact hoff ch
    · exact hoff ch

theorem handleError_delivered (w : World) (i : Inputs) :
    delivered (handleError w i).log = delivered w.log := by
  simp only [handleError]
  split
  · have hrm := removeAndResetChannel_delivered w i.reused
    split
    · exact (retry_delivered _ _).trans ((delivered_concat _ _ (by simp)).trans hrm)
    · exact hrm
  · rfl

theorem stopInLoop_delivered (w : World) : delivered (stopInLoop w).log = delivered w.log := by
  simp only [stopInLoop]
  split
  · have hrm := removeAndResetChannel_delivered { w with state := .kDisconnected } false
    split
    · exact (retry_delivered _ _).trans hrm
    · exact hrm
  · rfl

/-- `handleWrite` delivers a socket only where there is neither an error nor a
    self-connect. -/
theorem connected_delivered (w : World) (sock : Nat) (i : Inputs) :
    delivered (connected w sock i).log =
      delivered w.log ++ if i.err = false ∧ i.selfConnect = false then [sock] else [] := by
  have hasked : delivered (w.log ++ [.getSocketError sock]) = delivered w.log :=
    delivered_concat w.log _ (by simp)
  have hasked2 : delivered (w.log ++ [.getSocketError sock] ++ [.isSelfConnect sock]) =
      delivered w.log := (delivered_concat _ _ (by simp)).trans hasked
  simp only [connected]
  cases herr : i.err with
  | true =>
      rw [if_pos rfl, retry_delivered, if_neg (by simp), List.append_nil]
      exact hasked
  | false =>
      rw [if_neg (by simp)]
      cases hself : i.selfConnect with
      | true =>
          rw [if_pos rfl, retry_delivered, if_neg (by simp), List.append_nil]
          exact hasked2
      | false =>
          rw [if_neg (by simp), if_pos (by simp), if_pos ⟨rfl, rfl⟩, ← hasked2]
          simp [World.call, delivered]

/-! ## Taking a live channel out -/

/-- A channel that is not added has no entry in the kernel. -/
def Synced (w : World) : Prop :=
  ∀ ch ∈ w.channel, ch.index ≠ .kAdded → w.epoll.kernel ch.fd = none

theorem call_synced (h : Synced w) (c : SockCall) : Synced (w.call c) := h

theorem close_synced (h : Synced w) (sock : Nat) : Synced (close w sock) := by
  intro ch hch hindex
  show Function.update w.epoll.kernel sock none ch.fd = none
  rw [Function.update_apply]
  split
  · rfl
  · exact h ch hch hindex

theorem retry_synced (h : Synced w) (sock : Nat) : Synced (retry w sock) := by
  have hclose := close_synced h sock
  simp only [retry]
  split <;> exact hclose

theorem setEvents_synced (w : World) (ch : Channel) (events : Channel → Events) :
    Synced (onChannel w ch (Channel.setEvents events)) := by
  intro ch' hch' hindex
  have heq : (Channel.setEvents events ch w.epoll).val.1 = ch' := Option.some.inj hch'
  rw [← heq] at hindex ⊢
  exact Channel.setEvents_unadded events hindex

theorem connect_synced (h : Synced w) (errno : Errno) : Synced (connect w errno) := by
  have hcall : Synced ({ w with nextSock := w.nextSock + 1 }.call (.connect w.nextSock)) := h
  cases errno with
  | zero | EINTR | EISCONN | EINPROGRESS => exact setEvents_synced _ _ _
  | EAGAIN | EADDRINUSE | EADDRNOTAVAIL | ENETUNREACH | ECONNREFUSED => exact retry_synced hcall _
  | EPERM | EBADF | EACCES | EFAULT | ENOTSOCK | EAFNOSUPPORT | EALREADY | other =>
      exact close_synced hcall _

theorem startInLoop_synced (h : Synced w) (errno : Errno) : Synced (startInLoop w errno) := by
  unfold startInLoop
  split
  · exact connect_synced h errno
  · exact h

theorem disableAll_synced (h : Synced w) (ch : Channel) (reused : Bool) :
    Synced (disableAll w ch reused) := by
  simp only [disableAll]
  split
  · exact h
  · exact setEvents_synced _ _ _

theorem remove_synced (h : Synced w) {ch : Channel} (hch : w.channel = some ch) :
    Synced (remove w ch) := by
  intro ch' hch' _
  have hgone : (Channel.remove ch w.epoll).val.2.kernel (Channel.remove ch w.epoll).val.1.fd = none :=
    Channel.remove_unadded (h ch hch)
  revert hch'
  simp only [remove]
  split
  · intro hch'
    rw [← Option.some.inj hch']
    exact hgone
  · intro hch'
    rw [← Option.some.inj hch']
    exact hgone

theorem removeAndResetChannel_synced (h : Synced w) (reused : Bool) :
    Synced (removeAndResetChannel w reused).1 := by
  rcases Option.eq_none_or_eq_some w.channel with hch | ⟨ch, hch⟩
  · intro ch hmem
    simp [removeAndResetChannel, hch] at hmem
  · have hoff := disableAll_synced h ch reused
    simp only [removeAndResetChannel, hch]
    split
    next hlive hch' => exact remove_synced hoff hch'
    · exact hoff

theorem handleError_synced (h : Synced w) (i : Inputs) : Synced (handleError w i) := by
  simp only [handleError]
  split
  · have hrm := removeAndResetChannel_synced h i.reused
    split
    · exact retry_synced (call_synced hrm _) _
    · exact hrm
  · exact h

theorem connected_synced (h : Synced w) (sock : Nat) (i : Inputs) : Synced (connected w sock i) := by
  simp only [connected]
  split
  · exact retry_synced (call_synced h _) sock
  · split
    · exact retry_synced (call_synced (call_synced h _) _) sock
    · rw [if_pos (by simp)]
      exact h

theorem handleWrite_synced (h : Synced w) (i : Inputs) : Synced (handleWrite w i) := by
  have hrm := removeAndResetChannel_synced h i.reused
  simp only [handleWrite]
  split
  · exact connected_synced hrm _ i
  · exact hrm

theorem stopInLoop_synced (h : Synced w) : Synced (stopInLoop w) := by
  simp only [stopInLoop]
  split
  · have hrm := removeAndResetChannel_synced (w := { w with state := .kDisconnected }) h false
    split
    · exact retry_synced hrm _
    · exact hrm
  · exact h

theorem step_synced {a : Action} {w' : World} (h : Synced w) (hstep : step w a = some w') :
    Synced w' := by
  obtain ⟨-, hsteps⟩ := steps_of_step hstep
  cases hsteps with
  | start tid errno =>
      simp only [start]
      split
      · exact startInLoop_synced (w := { w with connect := true }) h errno
      · exact h
  | restart errno =>
      exact startInLoop_synced (w := { w with
        state := .kDisconnected
        retryDelayMs := kInitRetryDelayMs
        connect := true }) h errno
  | stop => exact h
  | handleEvent revents i hidle hwatch =>
      have herr : Synced (if revents.epollerr ∨ revents.pollnval then handleError w i else w) := by
        split
        · exact handleError_synced h i
        · exact h
      simp only [handleEvent]
      generalize (if revents.epollerr = true ∨ revents.pollnval = true then handleError w i else w) =
        w1 at herr ⊢
      split
      · exact handleWrite_synced herr i
      · exact herr
  | swapFunctors hidle => exact h
  | runFunctor errno f fs hfs =>
      cases f with
      | startInLoop => exact startInLoop_synced (w := { w with functors := fs }) h errno
      | stopInLoop => exact stopInLoop_synced (w := { w with functors := fs }) h
      | resetChannel =>
          intro ch hch
          cases hch
  | retryTimer i errno hi =>
      exact startInLoop_synced (w := { w with timers := w.timers.eraseIdx i }) h errno

/-- A channel that the kernel reports on is an added one. -/
theorem added_of_watching (h : Synced w) (hwatch : w.watching = true) :
    ∃ ch, w.channel = some ch ∧ ch.index = .kAdded := by
  unfold World.watching at hwatch
  cases hch : w.channel with
  | none =>
      rw [hch] at hwatch
      cases hwatch
  | some ch =>
      rw [hch, Option.any_some] at hwatch
      refine ⟨ch, rfl, ?_⟩
      by_contra hindex
      rw [h ch hch hindex] at hwatch
      cases hwatch

/-- `w'` is `w` with its channel taken out of the poller: the channel stays behind, new
    again, until the functor that resets it has run. -/
structure TakenOut (w w' : World) (ch : Channel) : Prop where
  dead : w'.dead = false
  state : w'.state = w.state
  timers : w'.timers = w.timers
  functors : w'.functors = w.functors
  pendingFunctors : w'.pendingFunctors = w.pendingFunctors ++ [.resetChannel]
  channel : ∃ ch', w'.channel = some ch' ∧ ch'.fd = ch.fd ∧ ch'.index = .kNew

/-- `removeAndResetChannel` of an added channel, or of any channel whose number is in use
    again, succeeds. -/
theorem removeAndResetChannel_live (hdead : w.dead = false) {ch : Channel} (hch : w.channel = some ch)
    (reused : Bool) (hlive : ch.index = .kAdded ∨ reused = true) :
    ∃ w', removeAndResetChannel w reused = (w', some ch.fd) ∧ TakenOut w w' ch := by
  -- `EPOLL_CTL_MOD` or `EPOLL_CTL_ADD` on a number that is in use does not fail
  have hoff : disableAll w ch reused =
      onChannel (w.call (.epollCtl ch.fd)) ch Channel.disableAll := by
    simp only [disableAll]
    rw [if_neg]
    rintro ⟨-, hindex, hnot⟩
    rcases hlive with hadded | hreused
    · exact hindex hadded
    · rw [hreused] at hnot
      cases hnot
  have hfd : (Channel.disableAll ch w.epoll).val.1.fd = ch.fd := Channel.setEvents_fd _ _ _
  have hrm : removeAndResetChannel w reused = ((remove (onChannel (w.call (.epollCtl ch.fd)) ch
      Channel.disableAll) (Channel.disableAll ch w.epoll).val.1).queueInLoop .resetChannel,
      some ch.fd) := by
    have hdead' : (onChannel (w.call (.epollCtl ch.fd)) ch Channel.disableAll).dead = false := hdead
    have hch' : (onChannel (w.call (.epollCtl ch.fd)) ch Channel.disableAll).channel =
      some (Channel.disableAll ch w.epoll).val.1 := rfl
    simp only [removeAndResetChannel, hch, hoff, hdead', hch', hfd]
  refine ⟨_, hrm, ?_⟩
  simp only [remove]
  split <;> exact ⟨hdead, rfl, rfl, rfl, rfl, _, rfl, hfd, rfl⟩

/-! ## The condition -/

/-- Only `handleWrite` delivers. -/
theorem step_delivered {a : Action} {w' : World} (hsteps : Steps w a w')
    (ha : ∀ revents i, a ≠ .handleEvent revents i) : delivered w'.log = delivered w.log := by
  cases hsteps with
  | start tid errno =>
      simp only [start]
      split
      · exact startInLoop_delivered _ errno
      · rfl
  | restart errno => exact startInLoop_delivered _ errno
  | stop => rfl
  | handleEvent revents i hidle hwatch => exact absurd rfl (ha revents i)
  | swapFunctors hidle => rfl
  | runFunctor errno f fs hfs =>
      cases f with
      | startInLoop => exact startInLoop_delivered _ errno
      | stopInLoop => exact stopInLoop_delivered _
      | resetChannel => rfl
  | retryTimer i errno hi => exact startInLoop_delivered _ errno

/-- `handleWrite` on a channel that can be taken out. -/
theorem handleWrite_delivered (hdead : w.dead = false) {ch : Channel} (hch : w.channel = some ch)
    {i : Inputs} (hlive : ch.index = .kAdded ∨ i.reused = true) :
    delivered (handleWrite w i).log =
      delivered w.log ++ if i.err = false ∧ i.selfConnect = false then [ch.fd] else [] := by
  obtain ⟨w', hrm, -⟩ := removeAndResetChannel_live hdead hch i.reused hlive
  have hsame := removeAndResetChannel_delivered w i.reused
  rw [hrm] at hsame
  simp only [handleWrite, hrm, connected_delivered]
  rw [show delivered w'.log = delivered w.log from hsame]

/-- `handleError` while connecting: the socket is closed, and its channel, new again, is
    still there. -/
theorem handleError_live (hdead : w.dead = false) {ch : Channel} (hch : w.channel = some ch)
    (hindex : ch.index = .kAdded) (hstate : w.state = .kConnecting) (i : Inputs) :
    (handleError w i).dead = false ∧ (handleError w i).state = .kDisconnected ∧
      ∃ ch', (handleError w i).channel = some ch' ∧ ch'.fd = ch.fd ∧ ch'.index = .kNew ∧
        Released (handleError w i).log ch.fd := by
  obtain ⟨w', hrm, hout⟩ := removeAndResetChannel_live hdead hch i.reused (.inl hindex)
  obtain ⟨ch', hch', hfd', hindex'⟩ := hout.channel
  have herr : handleError w i = retry (w'.call (.getSocketError ch.fd)) ch.fd := by
    simp only [handleError, if_pos hstate, hrm]
  rw [herr]
  refine ⟨?_, ?_, ch', ?_, hfd', hindex', .close ch.fd, ?_, rfl, rfl⟩
  · simp only [retry]
    split <;> exact hout.dead
  · simp only [retry]
    split <;> rfl
  · simp only [retry]
    split <;> exact hch'
  · simp only [retry]
    split <;> exact List.mem_append_right _ List.mem_cons_self

/-- A channel whose socket is closed cannot be taken out: the process ends. -/
theorem removeAndResetChannel_dead {ch : Channel} (hch : w.channel = some ch)
    (hindex : ch.index = .kNew) (hreleased : Released w.log ch.fd) :
    (removeAndResetChannel w false).1.dead = true ∧ (removeAndResetChannel w false).2 = none := by
  have hoff : (disableAll w ch false).dead = true := by
    simp only [disableAll, hindex]
    rw [if_pos ⟨hreleased, by decide, trivial⟩]
  simp only [removeAndResetChannel, hch, hoff]
  exact ⟨trivial, trivial⟩

theorem append_ite_eq_iff {xs : List Nat} {x : Nat} {P : Prop} [Decidable P] :
    (xs ++ if P then [x] else []) = xs ↔ ¬P := by
  split
  next h => exact iff_of_false (by simp) (not_not.mpr h)
  next h => exact iff_of_true (List.append_nil xs) h

/-- An event delivers a socket iff it completes a connect. -/
theorem handleEvent_delivered (h : Synced w) (hdead : w.dead = false) (hwatch : w.watching = true)
    (revents : Revents) (i : Inputs) :
    delivered (handleEvent w revents i).log = delivered w.log ↔
      ¬Completes w (.handleEvent revents i) := by
  obtain ⟨ch, hch, hindex⟩ := added_of_watching h hwatch
  by_cases hout : revents.epollout = true
  · by_cases hboth : w.state = .kConnecting ∧ (revents.epollerr = true ∨ revents.pollnval = true)
    · -- The error handler first
      obtain ⟨hlive, -, ch', hch', hfd', hindex', hreleased⟩ :=
        handleError_live hdead hch hindex hboth.1 i
      have hevent : handleEvent w revents i = handleWrite (handleError w i) i := by
        simp only [handleEvent, if_pos hboth.2, hout, hlive, and_self, if_true]
      rw [hevent]
      cases hreused : i.reused with
      | false =>
          have hgone := (removeAndResetChannel_dead hch' hindex' (hfd' ▸ hreleased)).2
          have hsame : delivered (handleWrite (handleError w i) i).log = delivered w.log := by
            simp only [handleWrite, hreused, hgone, removeAndResetChannel_delivered,
              handleError_delivered]
          refine iff_of_true hsame fun hcompletes => ?_
          rcases hcompletes.2.2.2 with hre | hnot
          · rw [hreused] at hre
            cases hre
          · exact hnot hboth
      | true =>
          rw [handleWrite_delivered hlive hch' (.inr hreused), handleError_delivered]
          exact append_ite_eq_iff.trans (not_congr
            ⟨fun hok => ⟨hout, hok.1, hok.2, .inl hreused⟩, fun hc => ⟨hc.2.1, hc.2.2.1⟩⟩)
    · -- The write handler only
      have hskip : (if revents.epollerr ∨ revents.pollnval then handleError w i else w) = w := by
        split
        next herr => exact if_neg fun hstate => hboth ⟨hstate, herr⟩
        · rfl
      have hevent : handleEvent w revents i = handleWrite w i := by
        simp only [handleEvent, hskip, hout, hdead, and_self, if_true]
      rw [hevent, handleWrite_delivered hdead hch (.inl hindex)]
      exact append_ite_eq_iff.trans (not_congr
        ⟨fun hok => ⟨hout, hok.1, hok.2, .inr hboth⟩, fun hc => ⟨hc.2.1, hc.2.2.1⟩⟩)
  · have hsame : delivered (handleEvent w revents i).log = delivered w.log := by
      simp only [handleEvent]
      rw [if_neg fun hboth => hout hboth.1]
      split
      · exact handleError_delivered w i
      · rfl
    exact iff_of_true hsame fun hcompletes => hout hcompletes.1

/-- A step obeys `stop()` iff it does not complete a connect of a stopped connector. -/
theorem obeys_step_iff {a : Action} {w' : World} (h : Synced w) (hstep : step w a = some w') :
    Obeys w a ↔ ¬(w.connect = false ∧ Completes w a) := by
  obtain ⟨hdead, hsteps⟩ := steps_of_step hstep
  -- A step that completes nothing delivers nothing
  have hquiet : delivered w'.log = delivered w.log ↔ ¬Completes w a := by
    cases hsteps with
    | handleEvent revents i hidle hwatch => exact handleEvent_delivered h hdead hwatch revents i
    | start | restart | stop | swapFunctors | runFunctor | retryTimer =>
        exact iff_of_true (step_delivered (steps_of_step hstep).2 (by simp)) fun hfalse => hfalse
  constructor
  · rintro hobeys ⟨hconnect, hcompletes⟩
    exact hquiet.mp (hobeys w' hstep hconnect).1 hcompletes
  · intro hcond u hu hconnect
    rw [hstep] at hu
    cases hu
    have hnot : ¬Completes w a := fun hcompletes => hcond ⟨hconnect, hcompletes⟩
    exact ⟨hquiet.mpr hnot, fun hcompletes => absurd hcompletes hnot⟩

/-- **Stopped.**  Along a run the connector obeys `stop()` iff no connect completes while
    `m_connect` is false. -/
theorem obeys_iff {actions : List Action} {w : World}
    (hrun : run step newConnector actions = some w) :
    Along step Obeys newConnector actions ↔
      Along step (fun w a => ¬(w.connect = false ∧ Completes w a)) newConnector actions := by
  have hsynced : Synced newConnector := by
    intro ch hch
    cases hch
  exact along_congr (fun _ _ _ h hstep => step_synced h hstep)
    (fun _ _ _ h hstep => obeys_step_iff h hstep) hsynced hrun

/-- Started, stopped before the connect is through, and closed by `stopInLoop`. -/
theorem obeys_iff_stopped :
    ∃ w, run step newConnector [.start loopThread .EINPROGRESS, .stop, .swapFunctors,
        .runFunctor .zero] = some w ∧
      Along step Obeys newConnector [.start loopThread .EINPROGRESS, .stop, .swapFunctors,
        .runFunctor .zero] := by
  have hsome : (run step newConnector [.start loopThread .EINPROGRESS, .stop, .swapFunctors,
      .runFunctor .zero]).isSome = true := by decide
  obtain ⟨w, hrun⟩ := Option.isSome_iff_exists.mp hsome
  refine ⟨w, hrun, (obeys_iff hrun).mpr ?_⟩
  simp [Along, Completes]

/-- `stop()` sets the flag at once, but its functor waits; the event of the finished
    connect comes first and the socket is delivered. -/
theorem not_obeys_completed :
    ¬∀ (actions : List Action) (w : World), run step newConnector actions = some w →
      Along step Obeys newConnector actions := by
  intro h
  have hlog : ((run step newConnector [.start loopThread .EINPROGRESS, .stop,
      .handleEvent { epollout := true } {}]).map fun w => delivered w.log) = some [0] := by decide
  obtain ⟨w, hrun, -⟩ := Option.map_eq_some_iff.mp hlog
  have hstopped := ((h _ w hrun).2 _ rfl).2 _ rfl
  exact absurd (hstopped.1 _ rfl rfl).1 (by decide)

end Connector
end Youth.Net
