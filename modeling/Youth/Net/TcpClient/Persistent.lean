/-
  Youth.Net.TcpClient.Persistent

  A client with `enableRetry()` does not give up.

  There is always one thing, and only one, that leads on: the connection that is up, the
  attempt that waits for its event, the timer of the next attempt, or the functor of the
  first one (`Trying`).  The connector alone drops its attempt in two cases, after `stop()`
  and after an error of `::connect` that it does not retry.
-/

import Youth.Net.TcpClient.OneConnection

namespace Youth.Net
namespace Connector

open Youth.Lib

/-- The outcomes of `::connect` after which `connect()` closes the socket, and that is all. -/
def Errno.givesUp : Errno → Bool
  | .EPERM | .EBADF | .EACCES | .EFAULT | .ENOTSOCK | .EAFNOSUPPORT | .EALREADY | .other => true
  | _ => false

/-- The attempts that are under way or to come. -/
def World.attempts (w : World) : Nat :=
  w.queue.count .startInLoop + w.timers.length + if w.state = .kConnecting then 1 else 0

variable {w : World}

theorem Single.attempts_of_connecting (h : Single w) (hstate : w.state = .kConnecting) :
    w.attempts = 1 := by
  obtain ⟨hstart, htimers⟩ := h.alone hstate
  rw [World.attempts, List.count_eq_zero.mpr hstart, htimers, if_pos hstate]
  rfl

theorem Clear.no_start (h : Clear w) : w.queue.count .startInLoop = 0 :=
  List.count_eq_zero.mpr h.noStart

/-- `retry` sets the timer. -/
theorem retry_attempts (hconnect : w.connect = true) (hstart : w.queue.count .startInLoop = 0)
    (htimers : w.timers = []) (sock : Nat) :
    (retry w sock).attempts = 1 ∧ (retry w sock).connect = true := by
  have hclosed : (close w sock).connect = true := hconnect
  simp only [retry]
  rw [if_pos hclosed]
  refine ⟨?_, hconnect⟩
  show w.queue.count .startInLoop + (w.timers ++ [_]).length + 0 = 1
  rw [hstart, htimers]
  rfl

/-- An attempt is made, or put off. -/
theorem startInLoop_attempts (h : Clear w) (hconnect : w.connect = true) {errno : Errno}
    (herrno : errno.givesUp = false) :
    (startInLoop w errno).attempts = 1 ∧ (startInLoop w errno).connect = true := by
  have hpending : (connecting ({ w with nextSock := w.nextSock + 1 }.call (.connect w.nextSock))
      w.nextSock).attempts = 1 := by
    show w.queue.count .startInLoop + w.timers.length + 1 = 1
    rw [h.no_start, h.timers]
    rfl
  have hretry := retry_attempts (w := { w with nextSock := w.nextSock + 1 }.call
    (.connect w.nextSock)) hconnect h.no_start h.timers w.nextSock
  unfold startInLoop
  rw [if_pos hconnect]
  cases errno with
  | zero | EINTR | EISCONN | EINPROGRESS => exact ⟨hpending, hconnect⟩
  | EAGAIN | EADDRINUSE | EADDRNOTAVAIL | ENETUNREACH | ECONNREFUSED => exact hretry
  | EPERM | EBADF | EACCES | EFAULT | ENOTSOCK | EAFNOSUPPORT | EALREADY | other => cases herrno

theorem removeAndResetChannel_connect (w : World) (reused : Bool) :
    (removeAndResetChannel w reused).1.connect = w.connect := by
  have hoff (ch : Channel) : (disableAll w ch reused).connect = w.connect := by
    simp only [disableAll]
    split <;> rfl
  simp only [removeAndResetChannel]
  split
  · rfl
  next ch hch =>
    split
    · simp only [remove]
      split <;> exact hoff ch
    · exact hoff ch

/-- What is left of an attempt whose channel has been taken out: its socket. -/
theorem TakenOut.retries {w' : World} {ch : Channel} (h : Single w) (hstate : w.state = .kConnecting)
    (hout : TakenOut w w' ch) : w'.queue.count .startInLoop = 0 ∧ w'.timers = [] := by
  obtain ⟨hstart, htimers⟩ := h.alone hstate
  refine ⟨?_, hout.timers.trans htimers⟩
  rw [hout.queue, List.count_append, List.count_eq_zero.mpr hstart]
  rfl

theorem handleError_attempts (h : Single w) (hdead : w.dead = false) (hconnect : w.connect = true)
    (hstate : w.state = .kConnecting) (i : Inputs) :
    (handleError w i).attempts = 1 ∧ (handleError w i).connect = true := by
  obtain ⟨⟨ch, hch, hindex⟩, -⟩ := h.connecting hstate
  obtain ⟨w', hrm, hout⟩ := removeAndResetChannel_live hdead hch i.reused (.inl hindex)
  obtain ⟨hstart, htimers⟩ := TakenOut.retries h hstate hout
  have hconnect' := removeAndResetChannel_connect w i.reused
  rw [hrm, hconnect] at hconnect'
  simp only [handleError, if_pos hstate, hrm]
  exact retry_attempts (w := w'.call (.getSocketError ch.fd)) hconnect' hstart htimers ch.fd

/-- The attempt goes on as a timer, unless it ends with its socket handed over. -/
theorem handleWrite_attempts (h : Single w) (hdead : w.dead = false) (hconnect : w.connect = true)
    (hstate : w.state = .kConnecting) (i : Inputs) :
    (handleWrite w i).connect = true ∧
      (handleWrite w i).attempts + (delivered (handleWrite w i).log).length =
        1 + (delivered w.log).length := by
  obtain ⟨⟨ch, hch, hindex⟩, -⟩ := h.connecting hstate
  have hdelivered := handleWrite_delivered hdead hch (i := i) (.inl hindex)
  obtain ⟨w', hrm, hout⟩ := removeAndResetChannel_live hdead hch i.reused (.inl hindex)
  obtain ⟨hstart, htimers⟩ := TakenOut.retries h hstate hout
  have hconnect' := removeAndResetChannel_connect w i.reused
  rw [hrm, hconnect] at hconnect'
  rw [hdelivered]
  by_cases hok : i.err = false ∧ i.selfConnect = false
  · have hwrite : handleWrite w i =
        ({ (w'.call (.getSocketError ch.fd)).call (.isSelfConnect ch.fd) with
          state := .kConnected }).call (.newConnection ch.fd) := by
      simp [handleWrite, hrm, connected, hok.1, hok.2]
    rw [hwrite, if_pos hok, List.length_append]
    refine ⟨hconnect', ?_⟩
    show w'.queue.count .startInLoop + w'.timers.length + 0 + (_ + 1) = _
    rw [hstart, htimers, List.length_nil]
    omega
  · -- an error, or a connection to itself
    have hretry : ∃ t : World, handleWrite w i = retry t ch.fd ∧ t.connect = true ∧
        t.queue.count .startInLoop = 0 ∧ t.timers = [] := by
      cases herr : i.err with
      | true =>
          refine ⟨w'.call (.getSocketError ch.fd), ?_, hconnect', hstart, htimers⟩
          simp [handleWrite, hrm, connected, herr]
      | false =>
          have hself : i.selfConnect = true := by simpa [herr] using hok
          refine ⟨(w'.call (.getSocketError ch.fd)).call (.isSelfConnect ch.fd), ?_, hconnect', hstart,
            htimers⟩
          simp [handleWrite, hrm, connected, herr, hself]
    obtain ⟨t, hwrite, hconnect', hstart', htimers'⟩ := hretry
    obtain ⟨hone, hconnect''⟩ := retry_attempts hconnect' hstart' htimers' ch.fd
    rw [hwrite, if_neg hok, List.append_nil, hone]
    exact ⟨hconnect'', rfl⟩

/-- An event of the attempt, if the process survives it. -/
theorem handleEvent_attempts (h : Single w) (howned : Owned w) (hdead : w.dead = false)
    (hconnect : w.connect = true) (hwatch : w.watching = true) {revents : Revents} {i : Inputs}
    (hcond : Disciplined w (.handleEvent revents i)) (hlive : (handleEvent w revents i).dead = false) :
    (handleEvent w revents i).connect = true ∧
      (handleEvent w revents i).attempts + (delivered (handleEvent w revents i).log).length =
        1 + (delivered w.log).length := by
  have hstate := connecting_of_watching h howned hwatch
  by_cases herr : revents.epollerr = true ∨ revents.pollnval = true
  · by_cases hout : revents.epollout = true
    · have hreused : i.reused = false :=
        Bool.eq_false_iff.mpr fun hreused => hcond ⟨hstate, herr, hout, hreused⟩
      rw [handleEvent_dead h hdead hstate herr hout hreused] at hlive
      cases hlive
    · have hevent : handleEvent w revents i = handleError w i := by
        simp only [handleEvent, if_pos herr, hout, Bool.false_eq_true, false_and, if_false]
      obtain ⟨hone, hconnect'⟩ := handleError_attempts h hdead hconnect hstate i
      rw [hevent, hone, handleError_delivered]
      exact ⟨hconnect', rfl⟩
  · simp only [handleEvent, if_neg herr]
    split
    · exact handleWrite_attempts h hdead hconnect hstate i
    · exact ⟨hconnect, by rw [h.attempts_of_connecting hstate]⟩

/-- `stopInLoop()` after a `start()` that came later: the attempt is put off. -/
theorem stopInLoop_attempts (h : Single w) (hdead : w.dead = false) (hconnect : w.connect = true) :
    (stopInLoop w).connect = true ∧ (stopInLoop w).attempts = w.attempts := by
  unfold stopInLoop
  split
  next hstate =>
    obtain ⟨⟨ch, hch, hindex⟩, -⟩ := h.connecting hstate
    obtain ⟨w', hrm, hout⟩ := removeAndResetChannel_live (w := { w with state := .kDisconnected })
      hdead hch false (.inl hindex)
    have hconnect' := removeAndResetChannel_connect { w with state := .kDisconnected } false
    rw [hrm] at hconnect'
    obtain ⟨hstart, htimers⟩ := h.alone hstate
    have hstart' : w'.queue.count .startInLoop = 0 := by
      rw [hout.queue, List.count_append]
      show w.queue.count .startInLoop + 0 = 0
      rw [List.count_eq_zero.mpr hstart]
    obtain ⟨hone, hconnect''⟩ := retry_attempts (hconnect'.trans hconnect) hstart'
      (hout.timers.trans htimers) ch.fd
    simp only [hrm]
    exact ⟨hconnect'', hone.trans (h.attempts_of_connecting hstate).symm⟩
  · exact ⟨hconnect, rfl⟩

/-- The kernel watches the channel of an attempt. -/
theorem watching_of_connecting (h : Single w) (howned : Owned w) (hstate : w.state = .kConnecting) :
    w.watching = true := by
  obtain ⟨⟨ch, hch, hindex⟩, -⟩ := h.connecting hstate
  have hreg := (howned.channel ch hch).2.1
  unfold Epoll.Registered at hreg
  rw [hindex] at hreg
  rw [World.watching, hch, Option.any_some, hreg.2]
  rfl

end Connector

namespace TcpClient

open Youth.Lib

/-- The user neither stops nor disconnects the client, and no `::connect` fails for good. -/
def Action.Persists : Action → Prop
  | .disconnect | .stop => False
  | .connect _ errno | .retryTimer _ errno | .hangUp _ errno | .runFunctor errno =>
    errno.givesUp = false
  | .enableRetry | .forceClose _ | .poll | .handleEvent .. | .swapFunctors => True

/-- One thing leads on. -/
structure Trying (w : World) : Prop where
  retry : w.retry = true
  connect : w.connect = true
  again : w.connector.connect = true
  one : w.connector.attempts + w.up.length = 1

variable {w : World} {c : Connector.World} {conn : Connection}

/-- A step of the connector's own, with no socket handed over. -/
theorem Trying.follow (h : Trying w) (hconnect : c.connect = true)
    (hattempts : c.attempts = w.connector.attempts) : Trying (w.withConnector c) :=
  ⟨h.retry, h.connect, hconnect, (congrArg (· + w.up.length) hattempts).trans h.one⟩

/-- The functor at the head of the connector's queue is no `startInLoop`. -/
theorem attempts_pop {f : Connector.Functor} {fs : List Connector.Functor}
    (hfs : c.functors = f :: fs) (hf : f ≠ .startInLoop) :
    { c with functors := fs }.attempts = c.attempts := by
  rw [Connector.World.attempts, Connector.World.attempts, Connector.queue_cons hfs,
    List.count_cons_of_ne hf]

theorem handleClose_trying (h : Trying w) (hl : Live w) (hup : conn ∈ w.up)
    (hreset : .connector .resetChannel ∉ w.queue) {errno : Connector.Errno}
    (herrno : errno.givesUp = false) : Trying (handleClose w conn errno) := by
  have herase : w.up.erase conn = [] := by
    rw [(hl.inLoop.tcpConnection hup).2]
    exact List.erase_cons_head _ _
  obtain ⟨hone, hconnect⟩ := Connector.startInLoop_attempts (hl.clear hup hreset) rfl herrno
  simp only [handleClose, removeConnection, herase]
  rw [if_pos ⟨h.retry, h.connect⟩]
  refine ⟨h.retry, h.connect, hconnect, ?_⟩
  show (Connector.restart w.connector errno).attempts + 0 = 1
  exact hone

theorem connectorFunctor_trying (h : Trying w) (hl : Live w) (hdead : w.connector.dead = false)
    {errno : Connector.Errno} (herrno : errno.givesUp = false) {fs : List Functor}
    (hc : Connector.step w.connector (.runFunctor errno) = some c) :
    Trying ({ w with functors := fs }.withConnector c) := by
  have hpopped : Trying { w with functors := fs } := ⟨h.retry, h.connect, h.again, h.one⟩
  obtain ⟨-, hsteps⟩ := Connector.steps_of_step hc
  cases hsteps with
  | runFunctor _ g gs hgs =>
      cases g with
      | startInLoop =>
          have hclear := Connector.clear_of_functor hl.tidy.2 hgs
          obtain ⟨hone, hconnect⟩ := Connector.startInLoop_attempts hclear h.again herrno
          refine hpopped.follow hconnect (hone.trans ?_)
          -- the functor was the one thing that led on
          have hstate : w.connector.state = .kDisconnected := hclear.state
          have hdown := hl.inLoop.down_of_state (by rw [hstate]; decide)
          have hsum := h.one
          rw [hdown] at hsum
          exact hsum.symm
      | stopInLoop =>
          have hsingle := hl.tidy.2.pop hgs (by decide) (by decide)
          obtain ⟨hconnect, hattempts⟩ := Connector.stopInLoop_attempts hsingle hdead h.again
          exact hpopped.follow hconnect (hattempts.trans (attempts_pop hgs (by decide)))
      | resetChannel =>
          exact hpopped.follow h.again (attempts_pop (c := w.connector) hgs (by decide))

theorem step_trying {a : Action} {w' : World} (h : Trying w) (hl : Live w) (hpersists : a.Persists)
    (hcond : Disciplined w a) (hdead : w.connector.dead = false) (hsteps : Steps w a w')
    (hlive : w'.connector.dead = false) : Trying w' := by
  cases hsteps with
  | connect tid errno =>
      -- something is under way, so the user does not ask for more
      obtain ⟨hstate, htimers, hstart, -⟩ : Connector.Disciplined w.connector (.start tid errno) :=
        hcond _ rfl
      have hdown := hl.inLoop.down_of_state (by rw [hstate]; decide)
      have hone := h.one
      rw [Connector.World.attempts, List.count_eq_zero.mpr hstart, htimers, hstate, hdown] at hone
      cases hone
  | disconnect => exact absurd hpersists not_false
  | stop => exact absurd hpersists not_false
  | enableRetry => exact ⟨rfl, h.connect, h.again, h.one⟩
  | forceClose conn =>
      unfold forceClose
      split
      · exact ⟨h.retry, h.connect, h.again, h.one⟩
      · exact h
  | poll hturn hidle => exact ⟨h.retry, h.connect, h.again, h.one⟩
  | handleEvent revents i peerAddr c hturn hc =>
      have hclient : Connector.Action.OfClient (.handleEvent revents i) := trivial
      obtain ⟨-, htidy⟩ := Connector.step_tidy (fun _ => hl.tidy) hclient (hcond _ rfl) hc
      have hsplit := Connector.delivered_drop (Connector.step_log hc)
      obtain ⟨hdown, hsocks⟩ := handleEvent_live hl hturn hc (hcond _ rfl) htidy peerAddr
      have hconnected (hlive : c.dead = false) : c.connect = true ∧ c.attempts +
          (Connector.delivered c.log).length = 1 + (Connector.delivered w.connector.log).length := by
        obtain ⟨-, hsteps⟩ := Connector.steps_of_step hc
        cases hsteps with
        | handleEvent _ _ hidle hwatch =>
            exact Connector.handleEvent_attempts hl.tidy.2 hl.tidy.1.1 hdead h.again hwatch
              (hcond _ rfl) hlive
      rw [hsplit, List.length_append] at hconnected
      rcases hsocks with ⟨hsocks, -⟩ | ⟨sock, hsocks, -⟩
      · rw [hsocks] at hconnected hlive ⊢
        obtain ⟨hconnect, hsum⟩ := hconnected hlive
        refine ⟨h.retry, h.connect, hconnect, ?_⟩
        show c.attempts + w.up.length = 1
        rw [hdown]
        simp only [List.length_nil] at hsum ⊢
        omega
      · rw [hsocks] at hconnected hlive ⊢
        obtain ⟨hconnect, hsum⟩ := hconnected hlive
        refine ⟨h.retry, h.connect, hconnect, ?_⟩
        show c.attempts + (w.up ++ [_]).length = 1
        rw [hdown]
        simp only [List.nil_append, List.length_singleton] at hsum ⊢
        omega
  | retryTimer i errno c hc =>
      obtain ⟨-, hsteps⟩ := Connector.steps_of_step hc
      cases hsteps with
      | retryTimer _ _ hi =>
          have hdown := hl.down_of_timer hi
          have hcond' : Connector.Disciplined w.connector (.retryTimer i errno) := hcond _ rfl
          have hclear := Connector.clear_of_timer hl.tidy.2 hi hcond'
          obtain ⟨hone, hconnect⟩ := Connector.startInLoop_attempts hclear h.again hpersists
          refine h.follow hconnect (hone.trans ?_)
          have hsum := h.one
          rw [hdown] at hsum
          exact hsum.symm
  | hangUp conn errno hpolled hup =>
      exact handleClose_trying h hl hup ((hl.inLoop.held conn hup).polled hpolled) hpersists
  | swapFunctors c hturn hc =>
      obtain ⟨-, hsteps⟩ := Connector.steps_of_step hc
      cases hsteps with
      | swapFunctors hidle =>
          refine ⟨h.retry, h.connect, h.again, Eq.trans ?_ h.one⟩
          show Connector.World.attempts { w.connector with
            functors := w.connector.pendingFunctors, pendingFunctors := [] } + w.up.length = _
          simp [Connector.World.attempts, Connector.World.queue, hidle]
  | connectorFunctor errno f fs c hfs hc => exact connectorFunctor_trying h hl hdead hpersists hc
  | forceCloseInLoop errno conn fs hfs hup =>
      obtain ⟨hpopped, -, hrest⟩ := hl.forceCloseInLoop hfs hup
      have htrying : Trying { w with functors := fs } := ⟨h.retry, h.connect, h.again, h.one⟩
      exact handleClose_trying htrying hpopped hup hrest hpersists
  | forceCloseDown errno conn fs hfs hdown => exact ⟨h.retry, h.connect, h.again, h.one⟩
  | connectDestroyed errno conn fs hfs => exact ⟨h.retry, h.connect, h.again, h.one⟩

/-- The client is told to retry and to connect; the first `::connect` does not fail for
    good. -/
theorem trying_of_connect (name : List Char) (tid : ThreadId) {errno : Connector.Errno}
    (herrno : errno.givesUp = false) : Trying (connect (enableRetry (newClient name)) tid errno) := by
  have hclear : Connector.Clear { Connector.newConnector with connect := true } :=
    ⟨rfl, rfl, rfl, List.not_mem_nil, List.not_mem_nil⟩
  by_cases htid : tid = loopThread
  · obtain ⟨hone, hconnect⟩ := Connector.startInLoop_attempts hclear rfl herrno
    have hstart : Connector.start Connector.newConnector tid errno =
        Connector.startInLoop { Connector.newConnector with connect := true } errno := if_pos htid
    exact ⟨rfl, rfl, (congrArg _ hstart).trans hconnect, (congrArg _ hstart).trans hone⟩
  · have hstart : Connector.start Connector.newConnector tid errno =
        { Connector.newConnector with connect := true }.queueInLoop .startInLoop := if_neg htid
    exact ⟨rfl, rfl, congrArg _ hstart, congrArg Connector.World.attempts hstart⟩

/-- Once it is told to retry and to connect, a disciplined client has exactly one connection,
    attempt or timer as long as the process lives, whatever connections and attempts fail; and
    an attempt that waits for its event is watched. -/
theorem never_gives_up (name : List Char) (tid : ThreadId) (errno : Connector.Errno)
    (actions : List Action) (w : World)
    (hrun : run step (newClient name) (.enableRetry :: .connect tid errno :: actions) = some w)
    (hcond : Along step Disciplined (newClient name) (.enableRetry :: .connect tid errno :: actions))
    (herrno : errno.givesUp = false) (hpersists : ∀ a ∈ actions, a.Persists)
    (hlive : w.connector.dead = false) :
    w.connector.attempts + w.tcpConnection.toList.length = 1 ∧
      (w.connector.state = .kConnecting → w.connector.watching = true) := by
  obtain ⟨w1, hstep1, hrun⟩ := run_cons_eq_some.mp hrun
  obtain ⟨w2, hstep2, hrun⟩ := run_cons_eq_some.mp hrun
  obtain ⟨hcond1, hcond⟩ := hcond
  obtain ⟨hcond2, hcond⟩ := hcond w1 hstep1
  have hgood := (step_good (step_good (newClient_good name) hcond1 hstep1).2 hcond2 hstep2).2
  have htrying : Trying w2 := by
    obtain rfl := Option.some.inj hstep1
    obtain rfl := Option.some.inj hstep2
    exact trying_of_connect name tid herrno
  -- both invariants, from there on
  have hinv : Good w ∧ (w.connector.dead = false → Trying w) := by
    refine run_invariant_along (I := fun w => Good w ∧ (w.connector.dead = false → Trying w))
      (fun s a t h ha hstep => ?_) ⟨hgood, fun _ => htrying⟩ hrun
      ((hcond w2 hstep2).and_forall hpersists)
    obtain ⟨hdead, hsteps⟩ := steps_of_step hstep
    exact ⟨(step_good h.1 ha.2 hstep).2, step_trying (h.2 hdead) (h.1.live hdead) ha.1 ha.2 hdead hsteps⟩
  have hl := hinv.1.live hlive
  refine ⟨?_, Connector.watching_of_connecting hl.tidy.2 hl.tidy.1.1⟩
  rw [← hl.inLoop.one]
  exact (hinv.2 hlive).one

/-- Refused twice, connected, left by the peer: the client is connecting again. -/
def refusedTwice : List Action :=
  [.poll, .swapFunctors, .runFunctor .ECONNREFUSED, .poll, .retryTimer 0 .ENETUNREACH,
    .retryTimer 0 .EINPROGRESS, .handleEvent { epollout := true } {} (.inet 1 0 0 2 80),
    .swapFunctors, .runFunctor .zero, .poll,
    .hangUp ⟨2, ['c', ':', '1', '.', '0', '.', '0', '.', '2', ':', '8', '0', '#', '1']⟩ .EINPROGRESS]

theorem never_gives_up_refusedTwice :
    ∃ w, run step (newClient ['c']) (.enableRetry :: .connect 1 .zero :: refusedTwice) = some w ∧
      w.tcpConnection = none ∧ w.connector.attempts = 1 := by
  have hrun : (run step (newClient ['c']) (.enableRetry :: .connect 1 .zero :: refusedTwice)).map
      (fun w => decide (w.connector.dead = false ∧ w.tcpConnection = none)) = some true := by
    decide +kernel
  obtain ⟨w, hw, hend⟩ := Option.map_eq_some_iff.mp hrun
  obtain ⟨hlive, htcp⟩ := of_decide_eq_true hend
  obtain ⟨hone, -⟩ := never_gives_up ['c'] 1 .zero refusedTwice w hw (by decide +kernel) rfl
    (by simp [refusedTwice, Action.Persists, Connector.Errno.givesUp]) hlive
  refine ⟨w, hw, htcp, ?_⟩
  rw [htcp] at hone
  exact hone

end TcpClient
end Youth.Net
