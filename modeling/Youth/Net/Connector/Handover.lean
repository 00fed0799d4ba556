/-
  Youth.Net.Connector.Handover

  What the owner of a connector sees of it.

  To the queue of the loop, which others use as well, the connector only adds (`Pushes`).
  A step hands over one socket at most, one that it has not given up before, and then the
  attempt is over (`handleEvent_handsOver`).
-/

import Youth.Net.Connector.OneAttempt

namespace Youth.Net
namespace Connector

open Youth.Lib

/-- Functors may have been pushed; the queue is the same otherwise. -/
def Pushes (v w : World) : Prop :=
  w.functors = v.functors ∧ v.pendingFunctors <+: w.pendingFunctors

variable {v w : World}

theorem Pushes.refl (w : World) : Pushes w w := ⟨rfl, List.prefix_rfl⟩

theorem Pushes.queueInLoop (h : Pushes v w) (f : Functor) : Pushes v (w.queueInLoop f) :=
  ⟨h.1, h.2.trans (List.prefix_append _ _)⟩

theorem retry_pushes (h : Pushes v w) (sock : Nat) : Pushes v (retry w sock) := by
  simp only [retry]
  split <;> exact h

theorem startInLoop_pushes (h : Pushes v w) (errno : Errno) : Pushes v (startInLoop w errno) := by
  have hcall : Pushes v ({ w with nextSock := w.nextSock + 1 }.call (.connect w.nextSock)) := h
  unfold startInLoop
  split
  · cases errno with
    | zero | EINTR | EISCONN | EINPROGRESS => exact h
    | EAGAIN | EADDRINUSE | EADDRNOTAVAIL | ENETUNREACH | ECONNREFUSED => exact retry_pushes hcall _
    | EPERM | EBADF | EACCES | EFAULT | ENOTSOCK | EAFNOSUPPORT | EALREADY | other => exact h
  · exact h

theorem start_pushes (h : Pushes v w) (tid : ThreadId) (errno : Errno) :
    Pushes v (start w tid errno) := by
  simp only [start]
  split
  · exact startInLoop_pushes (w := { w with connect := true }) h errno
  · exact h.queueInLoop .startInLoop

theorem restart_pushes (h : Pushes v w) (errno : Errno) : Pushes v (restart w errno) :=
  startInLoop_pushes (w := { w with
    state := .kDisconnected, retryDelayMs := kInitRetryDelayMs, connect := true }) h errno

theorem removeAndResetChannel_pushes (h : Pushes v w) (reused : Bool) :
    Pushes v (removeAndResetChannel w reused).1 := by
  have hoff (ch : Channel) : Pushes v (disableAll w ch reused) := by
    simp only [disableAll]
    split <;> exact h
  simp only [removeAndResetChannel]
  split
  · exact h
  next ch hch =>
    split
    · refine Pushes.queueInLoop ?_ .resetChannel
      simp only [remove]
      split <;> exact hoff ch
    · exact hoff ch

theorem stopInLoop_pushes (h : Pushes v w) : Pushes v (stopInLoop w) := by
  simp only [stopInLoop]
  split
  · have hrm := removeAndResetChannel_pushes (w := { w with state := .kDisconnected }) h false
    split
    · exact retry_pushes hrm _
    · exact hrm
  · exact h

theorem handleError_pushes (h : Pushes v w) (i : Inputs) : Pushes v (handleError w i) := by
  simp only [handleError]
  split
  · have hrm := removeAndResetChannel_pushes h i.reused
    split
    · exact retry_pushes (w := World.call _ _) hrm _
    · exact hrm
  · exact h

theorem connected_pushes (h : Pushes v w) (sock : Nat) (i : Inputs) :
    Pushes v (connected w sock i) := by
  simp only [connected]
  split
  · exact retry_pushes (w := World.call _ _) h sock
  · split
    · exact retry_pushes (w := (w.call _).call _) h sock
    · rw [if_pos (by simp)]
      exact h

theorem handleWrite_pushes (h : Pushes v w) (i : Inputs) : Pushes v (handleWrite w i) := by
  have hrm := removeAndResetChannel_pushes h i.reused
  simp only [handleWrite]
  split
  · exact connected_pushes hrm _ i
  · exact hrm

theorem handleEvent_pushes (h : Pushes v w) (revents : Revents) (i : Inputs) :
    Pushes v (handleEvent w revents i) := by
  have herr : Pushes v (if revents.epollerr ∨ revents.pollnval then handleError w i else w) := by
    split
    · exact handleError_pushes h i
    · exact h
  simp only [handleEvent]
  generalize (if revents.epollerr = true ∨ revents.pollnval = true then handleError w i else w) = w1
    at herr ⊢
  split
  · exact handleWrite_pushes herr i
  · exact herr

theorem runFunctor_pushes (h : Pushes v w) (errno : Errno) (f : Functor) :
    Pushes v (runFunctor w errno f) := by
  cases f with
  | startInLoop => exact startInLoop_pushes h errno
  | stopInLoop => exact stopInLoop_pushes h
  | resetChannel => exact h

/-! ## The socket that is handed over -/

/-- Only the channel of an attempt is watched. -/
theorem connecting_of_watching (h : Single w) (howned : Owned w) (hwatch : w.watching = true) :
    w.state = .kConnecting := by
  obtain ⟨ch, hch, hindex⟩ := registered_of_watching howned hwatch
  by_contra hnot
  exact hindex (h.settled hnot ch hch).1

/-- `handleWrite` hands the socket of the attempt over, or nothing. -/
theorem handleWrite_handsOver (h : Single w) (howned : Owned w) (hdead : w.dead = false)
    (hstate : w.state = .kConnecting) (i : Inputs) :
    delivered (handleWrite w i).log = delivered w.log ∨
      (handleWrite w i).state = .kConnected ∧ ∃ sock, ¬Released w.log sock ∧
        delivered (handleWrite w i).log = delivered w.log ++ [sock] := by
  obtain ⟨⟨ch, hch, hindex⟩, -⟩ := h.connecting hstate
  rw [handleWrite_delivered hdead hch (.inl hindex)]
  split
  next hok =>
    refine .inr ⟨?_, ch.fd, (howned.channel ch hch).2.2 (by rw [hindex]; decide), rfl⟩
    obtain ⟨w', hrm, -⟩ := removeAndResetChannel_live hdead hch i.reused (.inl hindex)
    simp [handleWrite, hrm, connected, hok.1, hok.2, World.call]
  next => exact .inl (List.append_nil _)

/-- An event of the attempt hands over nothing, or its socket, and then the attempt is
    over. -/
theorem handleEvent_handsOver (h : Single w) (howned : Owned w) (hdead : w.dead = false)
    (hwatch : w.watching = true) {revents : Revents} {i : Inputs}
    (hcond : Disciplined w (.handleEvent revents i)) :
    delivered (handleEvent w revents i).log = delivered w.log ∨
      (handleEvent w revents i).state = .kConnected ∧ ∃ sock, ¬Released w.log sock ∧
        delivered (handleEvent w revents i).log = delivered w.log ++ [sock] := by
  have hstate := connecting_of_watching h howned hwatch
  by_cases herr : revents.epollerr = true ∨ revents.pollnval = true
  · -- the error handler has closed the socket
    left
    by_cases hout : revents.epollout = true
    · have hreused : i.reused = false :=
        Bool.eq_false_iff.mpr fun hreused => hcond ⟨hstate, herr, hout, hreused⟩
      obtain ⟨⟨ch, hch, hindex⟩, -⟩ := h.connecting hstate
      obtain ⟨hlive, -, ch', hch', hfd', hindex', hreleased⟩ :=
        handleError_live hdead hch hindex hstate i
      have hgone := (removeAndResetChannel_dead hch' hindex' (hfd' ▸ hreleased)).2
      simp only [handleEvent, if_pos herr, hout, hlive, and_self, if_true, handleWrite, hreused,
        hgone, removeAndResetChannel_delivered, handleError_delivered]
    · simp only [handleEvent, if_pos herr, if_neg fun hboth : _ ∧ _ => hout hboth.1,
        handleError_delivered]
  · simp only [handleEvent, if_neg herr]
    split
    · exact handleWrite_handsOver h howned hdead hstate i
    · exact .inl rfl

/-- What a step that hands over nothing adds to the log delivers nothing. -/
theorem delivered_drop {log log' : List SockCall} (h : log <+: log') :
    delivered log' = delivered log ++ delivered (log'.drop log.length) := by
  obtain ⟨rest, rfl⟩ := h
  rw [List.drop_left, delivered, List.filterMap_append]
  rfl

/-- A socket that was handed over has been given up. -/
theorem released_of_delivered {log : List SockCall} {sock : Nat} (h : sock ∈ delivered log) :
    Released log sock := by
  obtain ⟨c, hc, hsock⟩ := List.mem_filterMap.mp h
  cases c with
  | newConnection s =>
      cases hsock
      exact ⟨_, hc, rfl, rfl⟩
  | _ => cases hsock

theorem Released.mono {log log' : List SockCall} {sock : Nat} (h : Released log sock)
    (hlog : log <+: log') : Released log' sock := by
  obtain ⟨c, hc, hrel⟩ := h
  exact ⟨c, hlog.subset hc, hrel⟩

/-- No socket is handed over twice. -/
theorem delivered_nodup {log : List SockCall} (h : ReleasedOnce log) : (delivered log).Nodup := by
  refine List.Pairwise.filterMap _ ?_ h
  intro c c' hc sock hsock sock' hsock' heq
  cases c with
  | newConnection s =>
      cases c' with
      | newConnection s' =>
          cases hsock
          cases hsock'
          exact hc rfl heq.symm
      | _ => cases hsock'
  | _ => cases hsock

end Connector
end Youth.Net
