/-
  Youth.Net.Connector.Release

  Every socket of a connector is given up once, and left alone afterwards.

  `Owned` says that the sockets that have been released are exactly those no channel of
  the poller stands for any more.  It survives every step but one: an event set with
  both an error and writability, delivered while connecting.  `handleError` then closes
  the socket and leaves its channel in `m_channelPtr` (the reset is queued), and
  `handleWrite`, which runs next and has no way out, registers it again.
-/

import Youth.Lib.Machine
import Youth.Net.Connector.Basic

namespace Youth.Net
namespace Connector

open Youth.Lib

/-- Nothing is called on a socket after its release: no second release either. -/
def ReleasedOnce (log : List SockCall) : Prop :=
  log.Pairwise fun c c' => c.isRelease = true → c'.sock ≠ c.sock

instance (log : List SockCall) : Decidable (ReleasedOnce log) :=
  inferInstanceAs (Decidable (log.Pairwise fun c c' => c.isRelease = true → c'.sock ≠ c.sock))

theorem releasedOnce_concat {log : List SockCall} {c : SockCall} :
    ReleasedOnce (log ++ [c]) ↔ ReleasedOnce log ∧ ¬Released log c.sock := by
  unfold ReleasedOnce Released
  rw [List.pairwise_append]
  constructor
  · rintro ⟨hlog, -, hcross⟩
    refine ⟨hlog, ?_⟩
    rintro ⟨c', hc', hrel, hsock⟩
    exact hcross c' hc' c List.mem_cons_self hrel hsock.symm
  · rintro ⟨hlog, hnot⟩
    refine ⟨hlog, List.pairwise_singleton _ _, ?_⟩
    intro c' hc' d hd hrel hsock
    rw [List.mem_singleton.mp hd] at hsock
    exact hnot ⟨c', hc', hrel, hsock.symm⟩

theorem released_concat {log : List SockCall} {c : SockCall} {sock : Nat} :
    Released (log ++ [c]) sock ↔ Released log sock ∨ c.isRelease = true ∧ c.sock = sock := by
  unfold Released
  constructor
  · rintro ⟨c', hc', hrel⟩
    rcases List.mem_append.mp hc' with hc' | hc'
    · exact .inl ⟨c', hc', hrel⟩
    · rw [List.mem_singleton.mp hc'] at hrel
      exact .inr hrel
  · rintro (⟨c', hc', hrel⟩ | hrel)
    · exact ⟨c', List.mem_append_left _ hc', hrel⟩
    · exact ⟨c, List.mem_append_right _ List.mem_cons_self, hrel⟩

theorem not_released_concat {log : List SockCall} {c : SockCall} {sock : Nat}
    (h : ¬Released log sock) (hc : c.isRelease = false) : ¬Released (log ++ [c]) sock := by
  intro hreleased
  rcases released_concat.mp hreleased with hold | ⟨hnew, -⟩
  · exact h hold
  · rw [hc] at hnew
    cases hnew

/-- The log is clean, and a channel that the poller knows stands for a socket that is
    still the connector's. -/
structure Owned (w : World) : Prop where
  clean : ReleasedOnce w.log
  known : ∀ c ∈ w.log, c.sock < w.nextSock
  unknown : ∀ sock, w.nextSock ≤ sock →
    w.epoll.channelMap sock = none ∧ w.epoll.kernel sock = none
  channel : ∀ ch ∈ w.channel, ch.fd < w.nextSock ∧ w.epoll.Registered ch ∧
    (ch.index ≠ .kNew → ¬Released w.log ch.fd)

/-- While connecting, the channel at hand (if the reset of an older one has not thrown it
    away) is a registered one. -/
def Waiting (w : World) : Prop :=
  w.state = .kConnecting → ∀ ch ∈ w.channel, ch.index ≠ .kNew

/-- The socket is the connector's, but no channel of the poller stands for it: it is on
    its way out. -/
structure Detached (w : World) (sock : Nat) : Prop where
  owned : Owned w
  made : sock < w.nextSock
  held : ¬Released w.log sock
  gone : ∀ ch ∈ w.channel, ch.index ≠ .kNew → ch.fd ≠ sock

variable {w : World} {sock : Nat}

/-- The state, the timers and the functors are not part of it. -/
theorem Owned.of_same {w' : World} (h : Owned w)
    (e : w' = { w with
      state := w'.state
      connect := w'.connect
      retryDelayMs := w'.retryDelayMs
      pendingFunctors := w'.pendingFunctors
      functors := w'.functors
      timers := w'.timers
      dead := w'.dead }) : Owned w' := by
  rw [e]
  exact ⟨h.clean, h.known, h.unknown, h.channel⟩

/-- A socket that has not been made yet has not been released. -/
theorem Owned.not_released_next (h : Owned w) : ¬Released w.log w.nextSock := by
  rintro ⟨c, hc, -, hsock⟩
  have hlt := h.known c hc
  omega

/-- A call that releases nothing, on a socket the connector still has. -/
theorem call_owned (h : Owned w) {c : SockCall} (hc : c.isRelease = false)
    (hsock : c.sock < w.nextSock) (hrel : ¬Released w.log c.sock) : Owned (w.call c) where
  clean := releasedOnce_concat.mpr ⟨h.clean, hrel⟩
  known := by
    intro c' hc'
    rcases List.mem_append.mp hc' with hc' | hc'
    · exact h.known c' hc'
    · rw [List.mem_singleton.mp hc']
      exact hsock
  unknown := h.unknown
  channel := by
    intro ch hch
    obtain ⟨hfd, hreg, hown⟩ := h.channel ch hch
    exact ⟨hfd, hreg, fun hindex => not_released_concat (hown hindex) hc⟩

theorem Detached.call (h : Detached w sock) {c : SockCall} (hc : c.isRelease = false)
    (hsock : c.sock = sock) : Detached (w.call c) sock where
  owned := call_owned h.owned hc (by rw [hsock]; exact h.made) (by rw [hsock]; exact h.held)
  made := h.made
  held := not_released_concat h.held hc
  gone := h.gone

/-- The release of a detached socket. -/
theorem Detached.release (h : Detached w sock) {c : SockCall} (hsock : c.sock = sock) :
    Owned (w.call c) where
  clean := releasedOnce_concat.mpr ⟨h.owned.clean, by rw [hsock]; exact h.held⟩
  known := by
    intro c' hc'
    rcases List.mem_append.mp hc' with hc' | hc'
    · exact h.owned.known c' hc'
    · rw [List.mem_singleton.mp hc', hsock]
      exact h.made
  unknown := h.owned.unknown
  channel := by
    intro ch hmem
    obtain ⟨hfd, hreg, hown⟩ := h.owned.channel ch hmem
    refine ⟨hfd, hreg, fun hindex hreleased => ?_⟩
    rcases released_concat.mp hreleased with hold | ⟨-, hnew⟩
    · exact hown hindex hold
    · exact h.gone ch hmem hindex (hnew.symm.trans hsock)

theorem close_owned (h : Detached w sock) : Owned (close w sock) := by
  have hcall := h.release (c := .close sock) rfl
  refine ⟨hcall.clean, hcall.known, ?_, ?_⟩
  · intro s hs
    obtain ⟨hmap, hkernel⟩ := h.owned.unknown s hs
    refine ⟨hmap, ?_⟩
    show Function.update w.epoll.kernel sock none s = none
    rw [Function.update_apply]
    split
    · rfl
    · exact hkernel
  · intro ch hmem
    obtain ⟨hfd, -, hown⟩ := hcall.channel ch hmem
    obtain ⟨-, hreg, -⟩ := h.owned.channel ch hmem
    refine ⟨hfd, ?_, hown⟩
    by_cases hindex : ch.index = .kNew
    · simp only [Epoll.Registered, hindex] at hreg ⊢
      refine ⟨hreg.1, ?_⟩
      show Function.update w.epoll.kernel sock none ch.fd = none
      rw [Function.update_apply]
      split
      · rfl
      · exact hreg.2
    · -- the kernel's entry of a registered channel is another socket's
      have hkernel : (close w sock).epoll.kernel ch.fd = w.epoll.kernel ch.fd := by
        show Function.update w.epoll.kernel sock none ch.fd = w.epoll.kernel ch.fd
        exact Function.update_of_ne (h.gone ch hmem hindex) _ _
      unfold Epoll.Registered at hreg ⊢
      rw [hkernel]
      exact hreg

theorem retry_owned (h : Detached w sock) : Owned (retry w sock) ∧ Waiting (retry w sock) := by
  have hclose := close_owned h
  simp only [retry]
  split
  · refine ⟨hclose.of_same rfl, ?_⟩
    intro hstate
    cases hstate
  · refine ⟨hclose.of_same rfl, ?_⟩
    intro hstate
    cases hstate

/-! ## A new attempt -/

/-- Replacing `m_channelPtr` by a channel of one of the connector's sockets, after an
    operation on it. -/
theorem onChannel_owned (h : Owned w) {ch : Channel} {op : Channel.Op} (hfd : ch.fd < w.nextSock)
    (hrel : ¬Released w.log ch.fd) (hopFd : (op ch w.epoll).val.1.fd = ch.fd)
    (hreg : (op ch w.epoll).val.2.Registered (op ch w.epoll).val.1)
    (hother : ∀ fd, fd ≠ ch.fd → (op ch w.epoll).val.2.channelMap fd = w.epoll.channelMap fd ∧
      (op ch w.epoll).val.2.kernel fd = w.epoll.kernel fd) : Owned (onChannel w ch op) where
  clean := h.clean
  known := h.known
  unknown := by
    intro s hs
    have hlt : ch.fd < s := Nat.lt_of_lt_of_le hfd hs
    obtain ⟨hmap, hkernel⟩ := hother s (Nat.ne_of_gt hlt)
    obtain ⟨hmap', hkernel'⟩ := h.unknown s hs
    exact ⟨hmap.trans hmap', hkernel.trans hkernel'⟩
  channel := by
    intro ch' hch'
    have heq : (op ch w.epoll).val.1 = ch' := Option.some.inj hch'
    rw [← heq, hopFd]
    exact ⟨hfd, hreg, fun _ => hrel⟩

theorem connecting_owned (h : Detached w sock)
    (hnew : w.epoll.channelMap sock = none ∧ w.epoll.kernel sock = none) :
    Owned (connecting w sock) ∧ Waiting (connecting w sock) := by
  have hstate : Owned { w with state := .kConnecting } := h.owned.of_same rfl
  have hcall := call_owned (c := .epollCtl sock) hstate rfl h.made h.held
  have hreg : w.epoll.Registered { self := sock, fd := sock } := hnew
  refine ⟨onChannel_owned hcall h.made (not_released_concat h.held rfl) (Channel.setEvents_fd _ _ _)
    (Channel.setEvents_registered hreg _).1 fun fd hfd => Channel.setEvents_other _ _ _ hfd, ?_⟩
  intro _ ch hch
  -- a channel with events is an added one
  have hindex : (Channel.enableWriting { self := sock, fd := sock } w.epoll).val.1.index = .kAdded :=
    Channel.updateChannel_index rfl
  have hindex' : ch.index = .kAdded := by
    rw [← Option.some.inj hch]
    exact hindex
  rw [hindex']
  decide

theorem connect_owned (h : Owned w) (hwait : Waiting w) (errno : Errno) :
    Owned (connect w errno) ∧ Waiting (connect w errno) := by
  -- the socket is new: nothing in the log, in the poller or in `m_channelPtr` is about it
  have hmade : Detached { w with nextSock := w.nextSock + 1 } w.nextSock := by
    refine ⟨⟨h.clean, ?_, ?_, ?_⟩, Nat.lt_succ_self _, h.not_released_next, ?_⟩
    · exact fun c hc => Nat.lt_succ_of_lt (h.known c hc)
    · exact fun s hs => h.unknown s (Nat.le_of_succ_le hs)
    · intro ch hch
      obtain ⟨hfd, hreg⟩ := h.channel ch hch
      exact ⟨Nat.lt_succ_of_lt hfd, hreg⟩
    · exact fun ch hch _ => Nat.ne_of_lt (h.channel ch hch).1
  have hcalled := hmade.call (c := .connect w.nextSock) rfl rfl
  have hconnecting := connecting_owned hcalled (h.unknown w.nextSock (Nat.le_refl _))
  cases errno with
  | zero | EINTR | EISCONN | EINPROGRESS => exact hconnecting
  | EAGAIN | EADDRINUSE | EADDRNOTAVAIL | ENETUNREACH | ECONNREFUSED => exact retry_owned hcalled
  | EPERM | EBADF | EACCES | EFAULT | ENOTSOCK | EAFNOSUPPORT | EALREADY | other =>
      exact ⟨close_owned hcalled, hwait⟩

theorem startInLoop_owned (h : Owned w) (hwait : Waiting w) (errno : Errno) :
    Owned (startInLoop w errno) ∧ Waiting (startInLoop w errno) := by
  unfold startInLoop
  split
  · exact connect_owned h hwait errno
  · exact ⟨h, hwait⟩

/-! ## Taking the channel out -/

/-- `disableAll` and the log entry of its `epoll_ctl`, on a registered channel. -/
theorem disableAll_owned (h : Owned w) {ch : Channel} (hch : w.channel = some ch)
    (hindex : ch.index ≠ .kNew) (reused : Bool) :
    ∃ w' ch', disableAll w ch reused = w' ∧ Owned w' ∧ w'.dead = w.dead ∧
      w'.channel = some ch' ∧ ch'.fd = ch.fd ∧ ¬Released w'.log ch.fd := by
  obtain ⟨hfd, hreg, hown⟩ := h.channel ch hch
  have hheld := hown hindex
  -- The socket is open, so its `epoll_ctl` succeeds
  have hoff : disableAll w ch reused =
      onChannel (w.call (.epollCtl ch.fd)) ch Channel.disableAll := by
    simp only [disableAll, hheld, false_and, if_false]
  have hcall := call_owned (c := .epollCtl ch.fd) h rfl hfd hheld
  have hheld' := not_released_concat (c := .epollCtl ch.fd) hheld rfl
  refine ⟨_, _, hoff, ?_, rfl, rfl, Channel.setEvents_fd _ _ _, hheld'⟩
  exact onChannel_owned hcall hfd hheld' (Channel.setEvents_fd _ _ _)
    (Channel.setEvents_registered hreg _).1 fun fd hne => Channel.setEvents_other _ _ _ hne

/-- `remove` and the log entry of its `epoll_ctl`, if it makes one. -/
theorem remove_owned (h : Owned w) {ch : Channel} (hch : w.channel = some ch)
    (hheld : ¬Released w.log ch.fd) :
    Owned (remove w ch) ∧ (remove w ch).dead = w.dead ∧ ¬Released (remove w ch).log ch.fd ∧
      ∃ ch', (remove w ch).channel = some ch' ∧ ch'.fd = ch.fd ∧ ch'.index = .kNew := by
  obtain ⟨hfd, hreg, -⟩ := h.channel ch hch
  have hremoved {w' : World} (h' : Owned w') (hepoll : w'.epoll = w.epoll)
      (hnext : w'.nextSock = w.nextSock) (hheld' : ¬Released w'.log ch.fd) :
      Owned (onChannel w' ch Channel.remove) := by
    refine onChannel_owned h' (by rw [hnext]; exact hfd) hheld' (Channel.remove_fd _ _) ?_
      fun fd hne => Channel.remove_other _ _ hne
    rw [hepoll]
    exact (Channel.remove_registered hreg).1
  simp only [remove]
  split
  · -- an added channel: one more `epoll_ctl` before it leaves the poller
    have hcall := call_owned (c := .epollCtl ch.fd) h rfl hfd hheld
    have hheld' := not_released_concat (c := .epollCtl ch.fd) hheld rfl
    exact ⟨hremoved hcall rfl rfl hheld', rfl, hheld', _, rfl, rfl, rfl⟩
  · exact ⟨hremoved h rfl rfl hheld, rfl, hheld, _, rfl, rfl, rfl⟩

/-- On a registered channel `removeAndResetChannel` succeeds: the socket is detached, and
    its channel, out of the poller, still in `m_channelPtr`. -/
theorem removeAndResetChannel_detached (h : Owned w) (hdead : w.dead = false) {ch : Channel}
    (hch : w.channel = some ch) (hindex : ch.index ≠ .kNew) (reused : Bool) :
    ∃ w' ch', removeAndResetChannel w reused = (w', some ch.fd) ∧ Detached w' ch.fd ∧
      w'.dead = false ∧ w'.channel = some ch' ∧ ch'.fd = ch.fd := by
  -- `disableAll` keeps the channel registered, `remove` makes it new again
  obtain ⟨w1, ch1, hw1, howned1, hdead1, hchannel1, hfd1, hheld1⟩ :=
    disableAll_owned h hch hindex reused
  rw [← hfd1] at hheld1
  obtain ⟨howned2, hdead2, hheld2, ch2, hchannel2, hfd2, hindex2⟩ :=
    remove_owned howned1 hchannel1 hheld1
  obtain ⟨hmade, -, -⟩ := howned2.channel ch2 hchannel2
  rw [hdead] at hdead1
  refine ⟨(remove w1 ch1).queueInLoop .resetChannel, ch2, ?_, ⟨?_, ?_, ?_, ?_⟩, ?_, hchannel2, ?_⟩
  · simp only [removeAndResetChannel, hch, hw1, hdead1, hchannel1]
    rw [hfd1]
  · exact howned2.of_same rfl
  · rw [← hfd1, ← hfd2]
    exact hmade
  · rw [← hfd1]
    exact hheld2
  · intro c hc hne
    have hc' : (remove w1 ch1).channel = some c := hc
    rw [hchannel2] at hc'
    cases hc'
    exact absurd hindex2 hne
  · exact hdead2.trans hdead1
  · rw [hfd2, hfd1]

/-! ## The handlers -/

theorem stopInLoop_owned (h : Owned w) (hwait : Waiting w) (hdead : w.dead = false) :
    Owned (stopInLoop w) ∧ Waiting (stopInLoop w) := by
  unfold stopInLoop
  split
  next hstate =>
    have hidle : Owned { w with state := .kDisconnected } := h.of_same rfl
    rcases Option.eq_none_or_eq_some w.channel with hch | ⟨ch, hch⟩
    · -- a null pointer: the process ends here
      have hnull : removeAndResetChannel { w with state := .kDisconnected } false =
          ({ w with state := .kDisconnected, dead := true }, none) := by
        simp only [removeAndResetChannel, hch]
      simp only [hnull]
      refine ⟨h.of_same rfl, ?_⟩
      intro hconnecting
      cases hconnecting
    · obtain ⟨w', ch', hrm, hdetached, -⟩ :=
        removeAndResetChannel_detached hidle hdead hch (hwait hstate ch hch) false
      simp only [hrm]
      exact retry_owned hdetached
  · exact ⟨h, hwait⟩

/-- `handleError` while connecting: the socket is closed, and its channel still in
    `m_channelPtr`. -/
theorem handleError_connecting (h : Owned w) (hdead : w.dead = false) {ch : Channel}
    (hch : w.channel = some ch) (hindex : ch.index ≠ .kNew) (hstate : w.state = .kConnecting)
    (i : Inputs) :
    Owned (handleError w i) ∧ Waiting (handleError w i) ∧ (handleError w i).dead = false ∧
      ∃ ch', (handleError w i).channel = some ch' ∧ Released (handleError w i).log ch'.fd := by
  obtain ⟨w', ch', hrm, hdetached, hdead', hch', hfd'⟩ :=
    removeAndResetChannel_detached h hdead hch hindex i.reused
  have herr : handleError w i = retry (w'.call (.getSocketError ch.fd)) ch.fd := by
    simp only [handleError, if_pos hstate, hrm]
  obtain ⟨hretry, hwait⟩ := retry_owned (hdetached.call (c := .getSocketError ch.fd) rfl rfl)
  rw [herr]
  refine ⟨hretry, hwait, ?_, ch', ?_, ?_⟩
  · simp only [retry]
    split <;> exact hdead'
  · simp only [retry]
    split <;> exact hch'
  · refine ⟨.close ch.fd, ?_, rfl, hfd'.symm⟩
    simp only [retry]
    split <;> exact List.mem_append_right _ List.mem_cons_self

theorem connected_owned (h : Detached w sock) (i : Inputs) :
    Owned (connected w sock i) ∧ Waiting (connected w sock i) := by
  have hasked := h.call (c := .getSocketError sock) rfl rfl
  have hasked2 := hasked.call (c := .isSelfConnect sock) rfl rfl
  simp only [connected]
  split
  · exact retry_owned hasked
  · split
    · exact retry_owned hasked2
    · -- handed over to the owner of the connector
      have hup : Detached { (w.call (.getSocketError sock)).call (.isSelfConnect sock) with
          state := .kConnected } sock :=
        ⟨hasked2.owned.of_same rfl, hasked2.made, hasked2.held, hasked2.gone⟩
      rw [if_pos (by simp)]
      refine ⟨hup.release (c := .newConnection sock) rfl, ?_⟩
      intro hconnecting
      cases hconnecting

theorem handleWrite_owned (h : Owned w) (hdead : w.dead = false) {ch : Channel}
    (hch : w.channel = some ch) (hindex : ch.index ≠ .kNew) (i : Inputs) :
    Owned (handleWrite w i) ∧ Waiting (handleWrite w i) := by
  obtain ⟨w', ch', hrm, hdetached, -⟩ := removeAndResetChannel_detached h hdead hch hindex i.reused
  simp only [handleWrite, hrm]
  exact connected_owned hdetached i

/-- A channel that the kernel reports on is a registered one. -/
theorem registered_of_watching (h : Owned w) (hwatch : w.watching = true) :
    ∃ ch, w.channel = some ch ∧ ch.index ≠ .kNew := by
  unfold World.watching at hwatch
  cases hch : w.channel with
  | none =>
      rw [hch] at hwatch
      cases hwatch
  | some ch =>
      rw [hch, Option.any_some] at hwatch
      obtain ⟨-, hreg, -⟩ := h.channel ch hch
      refine ⟨ch, rfl, fun hindex => ?_⟩
      simp only [Epoll.Registered, hindex] at hreg
      rw [hreg.2] at hwatch
      cases hwatch

/-! ## The condition -/

/-- Not both the error and the write handler of one event, while connecting. -/
def NoErrorWithWrite (w : World) : Action → Prop
  | .handleEvent revents _ =>
    ¬(w.state = .kConnecting ∧ (revents.epollerr = true ∨ revents.pollnval = true) ∧
      revents.epollout = true)
  | _ => True

theorem handleEvent_owned (h : Owned w) (hwait : Waiting w) (hdead : w.dead = false)
    (hwatch : w.watching = true) {revents : Revents} {i : Inputs}
    (hcond : NoErrorWithWrite w (.handleEvent revents i)) :
    Owned (handleEvent w revents i) ∧ Waiting (handleEvent w revents i) := by
  obtain ⟨ch, hch, hindex⟩ := registered_of_watching h hwatch
  simp only [handleEvent]
  by_cases herr : revents.epollerr = true ∨ revents.pollnval = true
  · rw [if_pos herr]
    by_cases hstate : w.state = .kConnecting
    · -- the error handler runs, so the write handler does not
      have hout : ¬revents.epollout = true := fun hout => hcond ⟨hstate, herr, hout⟩
      rw [if_neg fun hboth => hout hboth.1]
      obtain ⟨howned, hwait', -⟩ := handleError_connecting h hdead hch hindex hstate i
      exact ⟨howned, hwait'⟩
    · have hskip : handleError w i = w := if_neg hstate
      rw [hskip]
      split
      · exact handleWrite_owned h hdead hch hindex i
      · exact ⟨h, hwait⟩
  · rw [if_neg herr]
    split
    · exact handleWrite_owned h hdead hch hindex i
    · exact ⟨h, hwait⟩

theorem step_owned {a : Action} {w' : World} (h : Owned w ∧ Waiting w)
    (hcond : NoErrorWithWrite w a) (hstep : step w a = some w') : Owned w' ∧ Waiting w' := by
  obtain ⟨howned, hwait⟩ := h
  obtain ⟨hdead, hsteps⟩ := steps_of_step hstep
  cases hsteps with
  | start tid errno =>
      have hasked : Owned { w with connect := true } := howned.of_same rfl
      simp only [start]
      split
      · exact startInLoop_owned hasked hwait errno
      · exact ⟨hasked.of_same rfl, hwait⟩
  | restart errno =>
      refine startInLoop_owned (howned.of_same rfl) ?_ errno
      intro hconnecting
      cases hconnecting
  | stop => exact ⟨howned.of_same rfl, hwait⟩
  | handleEvent revents i hidle hwatch => exact handleEvent_owned howned hwait hdead hwatch hcond
  | swapFunctors hidle => exact ⟨howned.of_same rfl, hwait⟩
  | runFunctor errno f fs hfs =>
      have hpop : Owned { w with functors := fs } := howned.of_same rfl
      cases f with
      | startInLoop => exact startInLoop_owned hpop hwait errno
      | stopInLoop => exact stopInLoop_owned hpop hwait hdead
      | resetChannel =>
          -- a channel that is gone is none that could be registered
          refine ⟨⟨hpop.clean, hpop.known, hpop.unknown, ?_⟩, ?_⟩
          · intro ch hch
            cases hch
          · intro _ ch hch
            cases hch
  | retryTimer i errno hi =>
      have hfired : Owned { w with timers := w.timers.eraseIdx i } := howned.of_same rfl
      exact startInLoop_owned hfired hwait errno

/-! ## The log only grows -/

section Log

variable {log : List SockCall}

theorem call_log (h : log <+: w.log) (c : SockCall) : log <+: (w.call c).log :=
  h.trans (List.prefix_append _ _)

theorem retry_log (h : log <+: w.log) (sock : Nat) : log <+: (retry w sock).log := by
  simp only [retry]
  split <;> exact call_log h (.close sock)

theorem connect_log (h : log <+: w.log) (errno : Errno) : log <+: (connect w errno).log := by
  have hcall := call_log (w := { w with nextSock := w.nextSock + 1 }) h (.connect w.nextSock)
  cases errno with
  | zero | EINTR | EISCONN | EINPROGRESS => exact call_log hcall (.epollCtl w.nextSock)
  | EAGAIN | EADDRINUSE | EADDRNOTAVAIL | ENETUNREACH | ECONNREFUSED => exact retry_log hcall _
  | EPERM | EBADF | EACCES | EFAULT | ENOTSOCK | EAFNOSUPPORT | EALREADY | other =>
      exact call_log hcall (.close w.nextSock)

theorem startInLoop_log (h : log <+: w.log) (errno : Errno) :
    log <+: (startInLoop w errno).log := by
  unfold startInLoop
  split
  · exact connect_log h errno
  · exact h

/-- `removeAndResetChannel` starts with an `epoll_ctl` on the channel's socket. -/
theorem removeAndResetChannel_log {ch : Channel} (hch : w.channel = some ch) (reused : Bool) :
    w.log ++ [.epollCtl ch.fd] <+: (removeAndResetChannel w reused).1.log := by
  have hoff : w.log ++ [.epollCtl ch.fd] <+: (disableAll w ch reused).log := by
    simp only [disableAll]
    split <;> exact List.prefix_rfl
  simp only [removeAndResetChannel, hch]
  split
  · simp only [remove]
    split
    · exact call_log hoff _
    · exact hoff
  · exact hoff

theorem removeAndResetChannel_log_le (h : log <+: w.log) (reused : Bool) :
    log <+: (removeAndResetChannel w reused).1.log := by
  rcases Option.eq_none_or_eq_some w.channel with hch | ⟨ch, hch⟩
  · simp only [removeAndResetChannel, hch]
    exact h
  · exact (h.trans (List.prefix_append _ _)).trans (removeAndResetChannel_log hch reused)

theorem connected_log (h : log <+: w.log) (sock : Nat) (i : Inputs) :
    log <+: (connected w sock i).log := by
  have hasked := call_log h (.getSocketError sock)
  have hasked2 := call_log hasked (.isSelfConnect sock)
  simp only [connected]
  split
  · exact retry_log hasked sock
  · split
    · exact retry_log hasked2 sock
    · rw [if_pos (by simp)]
      exact call_log hasked2 (.newConnection sock)

theorem handleWrite_log (h : log <+: (removeAndResetChannel w i.reused).1.log) :
    log <+: (handleWrite w i).log := by
  simp only [handleWrite]
  split
  · exact connected_log h _ _
  · exact h

theorem handleError_log (h : log <+: w.log) (i : Inputs) : log <+: (handleError w i).log := by
  simp only [handleError]
  split
  · have hrm := removeAndResetChannel_log_le h i.reused
    split
    · exact retry_log (call_log hrm _) _
    · exact hrm
  · exact h

theorem handleEvent_log (h : log <+: w.log) (revents : Revents) (i : Inputs) :
    log <+: (handleEvent w revents i).log := by
  have herr : log <+: (if revents.epollerr ∨ revents.pollnval then handleError w i else w).log := by
    split
    · exact handleError_log h i
    · exact h
  simp only [handleEvent]
  generalize (if revents.epollerr = true ∨ revents.pollnval = true then handleError w i else w) = w1
    at herr ⊢
  split
  · exact handleWrite_log (removeAndResetChannel_log_le herr i.reused)
  · exact herr

theorem stopInLoop_log (h : log <+: w.log) : log <+: (stopInLoop w).log := by
  simp only [stopInLoop]
  split
  · have hrm := removeAndResetChannel_log_le (w := { w with state := .kDisconnected }) h false
    split
    · exact retry_log hrm _
    · exact hrm
  · exact h

end Log

theorem step_log {a : Action} {w' : World} (hstep : step w a = some w') : w.log <+: w'.log := by
  have hrefl : w.log <+: w.log := List.prefix_rfl
  obtain ⟨-, hsteps⟩ := steps_of_step hstep
  cases hsteps with
  | start tid errno =>
      simp only [start]
      split
      · exact startInLoop_log (w := { w with connect := true }) hrefl errno
      · exact hrefl
  | restart errno =>
      refine startInLoop_log ?_ errno
      exact hrefl
  | stop => exact hrefl
  | handleEvent revents i hidle hwatch => exact handleEvent_log hrefl revents i
  | swapFunctors hidle => exact hrefl
  | runFunctor errno f fs hfs =>
      cases f with
      | startInLoop => exact startInLoop_log (w := { w with functors := fs }) hrefl errno
      | stopInLoop => exact stopInLoop_log (w := { w with functors := fs }) hrefl
      | resetChannel => exact hrefl
  | retryTimer i errno hi =>
      exact startInLoop_log (w := { w with timers := w.timers.eraseIdx i }) hrefl errno

/-! ## The step that breaks it -/

/-- Error and writability in one event, while connecting: the write handler registers the
    socket that the error handler has closed. -/
theorem handleEvent_breaks (h : Owned w) (hdead : w.dead = false) (hwatch : w.watching = true)
    {revents : Revents} {i : Inputs} (hstate : w.state = .kConnecting)
    (herr : revents.epollerr = true ∨ revents.pollnval = true) (hout : revents.epollout = true) :
    ¬ReleasedOnce (handleEvent w revents i).log := by
  obtain ⟨ch, hch, hindex⟩ := registered_of_watching h hwatch
  obtain ⟨-, -, hdead', ch', hch', hreleased⟩ := handleError_connecting h hdead hch hindex hstate i
  have hevent : handleEvent w revents i = handleWrite (handleError w i) i := by
    simp only [handleEvent, if_pos herr, hout, hdead', and_self, if_true]
  intro hclean
  rw [hevent] at hclean
  -- the `epoll_ctl` of the second `disableAll` comes after the close
  have hpre : (handleError w i).log ++ [.epollCtl ch'.fd] <+: (handleWrite (handleError w i) i).log :=
    handleWrite_log (removeAndResetChannel_log hch' i.reused)
  have hclean' : ReleasedOnce ((handleError w i).log ++ [.epollCtl ch'.fd]) :=
    List.Pairwise.sublist hpre.sublist hclean
  exact (releasedOnce_concat.mp hclean').2 hreleased

theorem step_breaks {a : Action} {w' : World} (h : Owned w ∧ Waiting w)
    (hcond : ¬NoErrorWithWrite w a) (hstep : step w a = some w') : ¬ReleasedOnce w'.log := by
  obtain ⟨hdead, hsteps⟩ := steps_of_step hstep
  cases hsteps with
  | handleEvent revents i hidle hwatch =>
      obtain ⟨hstate, herr, hout⟩ := not_not.mp hcond
      exact handleEvent_breaks h.1 hdead hwatch hstate herr hout
  -- The condition is about events only
  | start | restart | stop | swapFunctors | runFunctor | retryTimer => exact absurd trivial hcond

theorem newConnector_owned : Owned newConnector ∧ Waiting newConnector := by
  refine ⟨⟨List.Pairwise.nil, ?_, fun _ _ => ⟨rfl, rfl⟩, ?_⟩, ?_⟩
  · intro c hc
    cases hc
  · intro ch hch
    cases hch
  · intro hstate
    cases hstate

/-- **Release.**  A run gives every socket up at most once, and calls nothing on it
    afterwards, iff no event of the run brings an error together with writability to the
    connecting channel. -/
theorem releasedOnce_iff {actions : List Action} {w : World}
    (hrun : run step newConnector actions = some w) :
    ReleasedOnce w.log ↔ Along step NoErrorWithWrite newConnector actions :=
  run_iff_along (G := fun w => ReleasedOnce w.log) (fun _ h => h.1.clean)
    (fun _ _ _ h hcond hstep => step_owned h hcond hstep)
    (fun _ _ _ h hcond hstep => step_breaks h hcond hstep)
    (fun _ _ _ hstep hclean => List.Pairwise.sublist (step_log hstep).sublist hclean)
    newConnector_owned hrun

/-- Started, refused at once, retried by the timer, connected. -/
theorem releasedOnce_iff_retried :
    ∃ w, run step newConnector [.start 1 .zero, .swapFunctors, .runFunctor .ECONNREFUSED,
        .retryTimer 0 .EINPROGRESS, .handleEvent { epollout := true } {}] = some w ∧
      ReleasedOnce w.log ∧ Along step NoErrorWithWrite newConnector [.start 1 .zero, .swapFunctors,
        .runFunctor .ECONNREFUSED, .retryTimer 0 .EINPROGRESS,
        .handleEvent { epollout := true } {}] := by
  have hlog : ((run step newConnector [.start 1 .zero, .swapFunctors, .runFunctor .ECONNREFUSED,
      .retryTimer 0 .EINPROGRESS, .handleEvent { epollout := true } {}]).map fun w => w.log) =
      some [.connect 0, .close 0, .connect 1, .epollCtl 1, .epollCtl 1, .getSocketError 1,
        .isSelfConnect 1, .newConnection 1] := by decide
  obtain ⟨w, hrun, hlog⟩ := Option.map_eq_some_iff.mp hlog
  have hclean : ReleasedOnce w.log := by
    rw [hlog]
    decide
  exact ⟨w, hrun, hclean, (releasedOnce_iff hrun).mp hclean⟩

/-- A connection refused later: the kernel reports error, hang-up and writability at once. -/
theorem not_releasedOnce_refused :
    ¬∀ (actions : List Action) (w : World), run step newConnector actions = some w →
      ReleasedOnce w.log := by
  intro h
  have hlog : ((run step newConnector [.start loopThread .EINPROGRESS,
      .handleEvent { epollerr := true, epollhup := true, epollout := true } { err := true }]).map
      fun w => w.log) =
      some [.connect 0, .epollCtl 0, .epollCtl 0, .getSocketError 0, .close 0, .epollCtl 0] := by
    decide
  obtain ⟨w, hrun, hlog⟩ := Option.map_eq_some_iff.mp hlog
  have hclean := h _ w hrun
  rw [hlog] at hclean
  exact absurd hclean (by decide)

end Connector
end Youth.Net
