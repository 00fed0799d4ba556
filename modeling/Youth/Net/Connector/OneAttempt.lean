/-
  Youth.Net.Connector.OneAttempt

  One connection attempt at a time, where the client keeps to it.

  Three things lead to `startInLoop`: a call of `connect()`, a queued functor and a retry
  timer.  Nothing keeps them apart: `TcpClient::connect` does not look at the state, and
  `stop()` leaves a retry timer running.  `Disciplined` is what a client has to see to,
  and `Single` what then holds in every state: one attempt at most is under way or to
  come, and a channel that is out of the poller is reset before the next one is made.
-/

import Youth.Net.Connector.Stopped

namespace Youth.Net
namespace Connector

open Youth.Lib

/-- The functors that wait in the loop. -/
def World.queue (w : World) : List Functor := w.functors ++ w.pendingFunctors

/-- The outcomes of `::connect` that lead to `connecting()`. -/
def Errno.pending : Errno → Bool
  | .zero | .EINTR | .EISCONN | .EINPROGRESS => true
  | _ => false

/-- `startInLoop` is entered in `kDisconnected`, and if it gets to `connecting()`, then
    without a channel. -/
def EntersClean (w : World) (errno : Errno) : Prop :=
  w.state = .kDisconnected ∧ (w.connect = true → errno.pending = true → w.channel = none)

/-- What the step must not do to another attempt. -/
def OneAttempt (w : World) : Action → Prop
  | .start tid errno => tid = loopThread → EntersClean { w with connect := true } errno
  | .restart errno => EntersClean { w with state := .kDisconnected, connect := true } errno
  | .runFunctor errno =>
    (∀ fs, w.functors = .startInLoop :: fs → EntersClean w errno) ∧
      ∀ fs, w.functors = .resetChannel :: fs → ∀ ch ∈ w.channel,
        w.epoll.channelMap ch.fd = none ∧ w.epoll.kernel ch.fd = none
  | .retryTimer _ errno => EntersClean w errno
  | _ => True

/-- The steps that `TcpClient::connect` and `TcpClient::stop` give rise to. -/
def Action.OfClient : Action → Prop
  | .restart _ => False
  | _ => True

/-- The care to be taken.  `connect()` comes only when nothing is left of an earlier
    attempt; a retry timer fires only after the queued reset; and a descriptor that
    `handleError` has closed is not in use again when `handleWrite` of the same event set
    comes to it. -/
def Disciplined (w : World) : Action → Prop
  | .start tid _ =>
    w.state = .kDisconnected ∧ w.timers = [] ∧ .startInLoop ∉ w.queue ∧
      (tid = loopThread → .resetChannel ∉ w.queue)
  | .retryTimer _ _ => .resetChannel ∉ w.queue
  | .handleEvent revents i =>
    ¬(w.state = .kConnecting ∧ (revents.epollerr = true ∨ revents.pollnval = true) ∧
      revents.epollout = true ∧ i.reused = true)
  | _ => True

instance (w : World) : (a : Action) → Decidable (Disciplined w a)
  | .start tid _ =>
    inferInstanceAs (Decidable (w.state = .kDisconnected ∧ w.timers = [] ∧ .startInLoop ∉ w.queue ∧
      (tid = loopThread → .resetChannel ∉ w.queue)))
  | .retryTimer _ _ => inferInstanceAs (Decidable (.resetChannel ∉ w.queue))
  | .handleEvent revents i =>
    inferInstanceAs (Decidable ¬(w.state = .kConnecting ∧
      (revents.epollerr = true ∨ revents.pollnval = true) ∧ revents.epollout = true ∧
      i.reused = true))
  | .restart _ => isTrue trivial
  | .stop => isTrue trivial
  | .swapFunctors => isTrue trivial
  | .runFunctor _ => isTrue trivial

/-- One attempt at most, with its channel; older channels are about to be reset. -/
structure Single (w : World) : Prop where
  connecting : w.state = .kConnecting →
    (∃ ch, w.channel = some ch ∧ ch.index = .kAdded) ∧ .resetChannel ∉ w.queue
  settled : w.state ≠ .kConnecting → ∀ ch ∈ w.channel, ch.index = .kNew ∧ .resetChannel ∈ w.queue
  one : w.queue.count .startInLoop + w.timers.length + (if w.state = .kDisconnected then 0 else 1) ≤ 1
  order : ∀ pre post, w.queue = pre ++ .startInLoop :: post → .resetChannel ∉ post

/-- Nothing is under way or to come. -/
structure Clear (w : World) : Prop where
  state : w.state = .kDisconnected
  channel : w.channel = none
  timers : w.timers = []
  noStart : .startInLoop ∉ w.queue
  noReset : .resetChannel ∉ w.queue

variable {w : World}

/-- A queue without `startInLoop` puts no reset behind one. -/
theorem order_of_noStart {queue : List Functor} (h : .startInLoop ∉ queue) (pre post : List Functor)
    (hsplit : queue = pre ++ .startInLoop :: post) : .resetChannel ∉ post := by
  refine absurd ?_ h
  rw [hsplit]
  exact List.mem_append_right _ List.mem_cons_self

/-! ## A new attempt -/

/-- From a clear state, `startInLoop` makes at most one attempt. -/
theorem startInLoop_single (h : Clear w) (errno : Errno) : Single (startInLoop w errno) := by
  have hcount : w.queue.count .startInLoop = 0 := List.count_eq_zero.mpr h.noStart
  -- Without a channel and with at most one timer
  have hidle {t : World} (hstate : t.state = .kDisconnected) (hqueue : t.queue = w.queue)
      (hchannel : t.channel = none) (htimers : t.timers.length ≤ 1) : Single t := by
    refine ⟨?_, ?_, ?_, ?_⟩
    · intro hconnecting
      rw [hstate] at hconnecting
      cases hconnecting
    · intro _ ch hch
      rw [hchannel] at hch
      cases hch
    · rw [hqueue, hcount, if_pos hstate]
      omega
    · rw [hqueue]
      exact order_of_noStart h.noStart
  have hsame : Single w := hidle h.state rfl h.channel (by rw [h.timers]; exact Nat.zero_le 1)
  have hconnecting : Single (connecting ({ w with nextSock := w.nextSock + 1 }.call
      (.connect w.nextSock)) w.nextSock) := by
    refine ⟨fun _ => ⟨⟨_, rfl, Channel.updateChannel_index rfl⟩, h.noReset⟩, ?_, ?_, ?_⟩
    · exact fun hnot => absurd rfl hnot
    · show w.queue.count .startInLoop + w.timers.length + 1 ≤ 1
      rw [hcount, h.timers]
      exact Nat.le_refl 1
    · exact order_of_noStart h.noStart
  have hretry : Single (retry ({ w with nextSock := w.nextSock + 1 }.call (.connect w.nextSock))
      w.nextSock) := by
    simp only [retry]
    split
    · refine hidle rfl rfl h.channel ?_
      show (w.timers ++ [_]).length ≤ 1
      rw [h.timers]
      exact Nat.le_refl 1
    · refine hidle rfl rfl h.channel ?_
      show w.timers.length ≤ 1
      rw [h.timers]
      exact Nat.zero_le 1
  have hclose : Single (close ({ w with nextSock := w.nextSock + 1 }.call (.connect w.nextSock))
      w.nextSock) := by
    refine hidle h.state rfl h.channel ?_
    show w.timers.length ≤ 1
    rw [h.timers]
    exact Nat.zero_le 1
  unfold startInLoop
  split
  · cases errno with
    | zero | EINTR | EISCONN | EINPROGRESS => exact hconnecting
    | EAGAIN | EADDRINUSE | EADDRNOTAVAIL | ENETUNREACH | ECONNREFUSED => exact hretry
    | EPERM | EBADF | EACCES | EFAULT | ENOTSOCK | EAFNOSUPPORT | EALREADY | other => exact hclose
  · exact hsame

theorem Clear.entersClean (h : Clear w) (errno : Errno) : EntersClean w errno :=
  ⟨h.state, fun _ _ => h.channel⟩

/-! ## The end of an attempt -/

/-- While connecting, nothing else is to come. -/
theorem Single.alone (h : Single w) (hstate : w.state = .kConnecting) :
    .startInLoop ∉ w.queue ∧ w.timers = [] := by
  have hone := h.one
  rw [hstate, if_neg (by decide)] at hone
  constructor
  · exact List.count_eq_zero.mp (by omega)
  · exact List.eq_nil_of_length_eq_zero (by omega)

/-- The channel is taken out and its reset queued; the attempt has failed or succeeded. -/
theorem Single.finish (h : Single w) (hstate : w.state = .kConnecting) {t : World}
    (hqueue : t.queue = w.queue ++ [.resetChannel]) (hchannel : ∀ ch ∈ t.channel, ch.index = .kNew)
    (hend : t.state = .kDisconnected ∧ t.timers.length ≤ 1 ∨ t.state = .kConnected ∧ t.timers = []) :
    Single t := by
  obtain ⟨hstart, -⟩ := h.alone hstate
  have hstart' : .startInLoop ∉ t.queue := by
    rw [hqueue]
    simp [hstart]
  have hcount : t.queue.count .startInLoop = 0 := List.count_eq_zero.mpr hstart'
  refine ⟨?_, ?_, ?_, order_of_noStart hstart'⟩
  · intro hconnecting
    rcases hend with ⟨hend, -⟩ | ⟨hend, -⟩ <;> (rw [hend] at hconnecting; cases hconnecting)
  · intro _ ch hch
    refine ⟨hchannel ch hch, ?_⟩
    rw [hqueue]
    exact List.mem_append_right _ List.mem_cons_self
  · rcases hend with ⟨hend, htimers⟩ | ⟨hend, htimers⟩
    · rw [hcount, if_pos hend]
      omega
    · rw [hcount, htimers, hend]
      decide

/-- `retry` with the socket of a channel that has been taken out. -/
theorem retry_single (h : Single w) (hstate : w.state = .kConnecting) {t : World}
    (hqueue : t.queue = w.queue ++ [.resetChannel]) (hchannel : ∀ ch ∈ t.channel, ch.index = .kNew)
    (htimers : t.timers = []) (sock : Nat) : Single (retry t sock) := by
  simp only [retry]
  split
  · refine h.finish hstate hqueue hchannel (.inl ⟨rfl, ?_⟩)
    show (t.timers ++ [_]).length ≤ 1
    rw [htimers]
    exact Nat.le_refl 1
  · refine h.finish hstate hqueue hchannel (.inl ⟨rfl, ?_⟩)
    show t.timers.length ≤ 1
    rw [htimers]
    exact Nat.zero_le 1

theorem TakenOut.queue {w' : World} {ch : Channel} (h : TakenOut w w' ch) :
    w'.queue = w.queue ++ [.resetChannel] := by
  rw [World.queue, h.functors, h.pendingFunctors, ← List.append_assoc]
  rfl

theorem TakenOut.index {w' : World} {ch : Channel} (h : TakenOut w w' ch) :
    ∀ ch' ∈ w'.channel, ch'.index = .kNew := by
  obtain ⟨ch', hch', -, hindex⟩ := h.channel
  intro c hc
  rw [hch'] at hc
  cases hc
  exact hindex

theorem stopInLoop_single (h : Single w) (hdead : w.dead = false) : Single (stopInLoop w) := by
  unfold stopInLoop
  split
  next hstate =>
    obtain ⟨⟨ch, hch, hindex⟩, -⟩ := h.connecting hstate
    obtain ⟨w', hrm, hout⟩ := removeAndResetChannel_live (w := { w with state := .kDisconnected })
      hdead hch false (.inl hindex)
    simp only [hrm]
    exact retry_single h hstate hout.queue hout.index (hout.timers.trans (h.alone hstate).2) _
  · exact h

theorem handleError_single (h : Single w) (hdead : w.dead = false) (hstate : w.state = .kConnecting)
    (i : Inputs) : Single (handleError w i) := by
  obtain ⟨⟨ch, hch, hindex⟩, -⟩ := h.connecting hstate
  obtain ⟨w', hrm, hout⟩ := removeAndResetChannel_live hdead hch i.reused (.inl hindex)
  simp only [handleError, if_pos hstate, hrm]
  exact retry_single (t := w'.call (.getSocketError ch.fd)) h hstate hout.queue hout.index
    (hout.timers.trans (h.alone hstate).2) _

theorem handleWrite_single (h : Single w) (hdead : w.dead = false) (hstate : w.state = .kConnecting)
    (i : Inputs) : Single (handleWrite w i) := by
  obtain ⟨⟨ch, hch, hindex⟩, -⟩ := h.connecting hstate
  obtain ⟨w', hrm, hout⟩ := removeAndResetChannel_live hdead hch i.reused (.inl hindex)
  have htimers := hout.timers.trans (h.alone hstate).2
  simp only [handleWrite, hrm, connected]
  split
  · exact retry_single (t := w'.call (.getSocketError ch.fd)) h hstate hout.queue hout.index htimers _
  · split
    · exact retry_single (t := (w'.call (.getSocketError ch.fd)).call (.isSelfConnect ch.fd)) h hstate
        hout.queue hout.index htimers _
    · rw [if_pos (by simp)]
      exact h.finish hstate hout.queue hout.index (.inr ⟨rfl, htimers⟩)

/-! ## The queue -/

/-- Another functor comes in. -/
theorem Single.push (h : Single w) {t : World} {f : Functor} (hf : f ≠ .resetChannel)
    (hqueue : t.queue = w.queue ++ [f]) (hstate : t.state = w.state) (hchannel : t.channel = w.channel)
    (hone : t.queue.count .startInLoop + t.timers.length +
      (if t.state = .kDisconnected then 0 else 1) ≤ 1) : Single t := by
  refine ⟨?_, ?_, hone, ?_⟩
  · rw [hstate, hchannel, hqueue]
    intro hconnecting
    obtain ⟨hch, hreset⟩ := h.connecting hconnecting
    exact ⟨hch, by simp [hreset, hf.symm]⟩
  · rw [hstate, hchannel, hqueue]
    intro hnot ch hch
    obtain ⟨hindex, hreset⟩ := h.settled hnot ch hch
    exact ⟨hindex, List.mem_append_left _ hreset⟩
  · intro pre post hsplit
    rw [hqueue] at hsplit
    rcases List.eq_nil_or_concat post with rfl | ⟨post', g, rfl⟩
    · exact List.not_mem_nil
    · -- The last functor is the new one
      rw [List.concat_eq_append] at hsplit ⊢
      have hsplit' : w.queue ++ [f] = (pre ++ .startInLoop :: post') ++ [g] := by simpa using hsplit
      obtain ⟨hold, hlast⟩ := List.append_inj' hsplit' rfl
      have hg : g = f := (List.singleton_inj.mp hlast).symm
      have hpost := h.order pre post' hold
      rw [hg]
      simp [hpost, hf.symm]

theorem queue_cons {f : Functor} {fs : List Functor} (hfs : w.functors = f :: fs) :
    w.queue = f :: { w with functors := fs }.queue := by
  rw [World.queue, hfs]
  rfl

/-- A functor other than `startInLoop` leaves the queue. -/
theorem Single.pop (h : Single w) {f : Functor} {fs : List Functor} (hfs : w.functors = f :: fs)
    (hf : f ≠ .startInLoop) (hreset : f ≠ .resetChannel) : Single { w with functors := fs } := by
  have hqueue := queue_cons hfs
  refine ⟨?_, ?_, ?_, ?_⟩
  · intro hstate
    obtain ⟨hch, hnot⟩ := h.connecting hstate
    rw [hqueue] at hnot
    exact ⟨hch, fun hmem => hnot (List.mem_cons_of_mem _ hmem)⟩
  · intro hstate ch hch
    obtain ⟨hindex, hmem⟩ := h.settled hstate ch hch
    rw [hqueue] at hmem
    exact ⟨hindex, (List.mem_cons.mp hmem).resolve_left hreset.symm⟩
  · have hone := h.one
    rw [hqueue, List.count_cons_of_ne hf] at hone
    exact hone
  · intro pre post hsplit
    refine h.order (f :: pre) post ?_
    rw [hqueue, hsplit]
    rfl

/-- The reset itself: the channel is gone. -/
theorem resetChannel_single (h : Single w) {fs : List Functor}
    (hfs : w.functors = .resetChannel :: fs) :
    w.state ≠ .kConnecting ∧ Single (resetChannel { w with functors := fs }) := by
  have hqueue := queue_cons hfs
  have hstate : w.state ≠ .kConnecting := by
    intro hstate
    have hnot := (h.connecting hstate).2
    rw [hqueue] at hnot
    exact hnot List.mem_cons_self
  refine ⟨hstate, fun hconnecting => absurd hconnecting hstate, ?_, ?_, ?_⟩
  · intro _ ch hch
    cases hch
  · have hone := h.one
    rw [hqueue, List.count_cons_of_ne (by decide)] at hone
    exact hone
  · intro pre post hsplit
    refine h.order (.resetChannel :: pre) post ?_
    rw [hqueue, List.cons_append, ← hsplit]
    rfl

/-! ## Clear states -/

/-- In `kDisconnected` without a reset to come there is no channel. -/
theorem Single.no_channel (h : Single w) (hstate : w.state ≠ .kConnecting)
    (hreset : .resetChannel ∉ w.queue) : w.channel = none := by
  cases hch : w.channel with
  | none => rfl
  | some ch => exact absurd (h.settled hstate ch hch).2 hreset

/-- A queued `startInLoop` finds a clear state. -/
theorem clear_of_functor (h : Single w) {fs : List Functor} (hfs : w.functors = .startInLoop :: fs) :
    Clear { w with functors := fs } := by
  have hqueue := queue_cons hfs
  have hone := h.one
  rw [hqueue, List.count_cons_self] at hone
  have hstate : w.state = .kDisconnected := by
    by_contra hnot
    rw [if_neg hnot] at hone
    omega
  have hreset : .resetChannel ∉ { w with functors := fs }.queue := h.order [] _ hqueue
  refine ⟨hstate, ?_, ?_, ?_, hreset⟩
  · refine h.no_channel (by rw [hstate]; decide) ?_
    rw [hqueue]
    simpa using hreset
  · exact List.eq_nil_of_length_eq_zero (show w.timers.length = 0 by omega)
  · exact List.count_eq_zero.mp (by omega)

/-- A retry timer finds a clear state, once the reset has run. -/
theorem clear_of_timer (h : Single w) {i : Nat} (hi : i < w.timers.length)
    (hreset : .resetChannel ∉ w.queue) : Clear { w with timers := w.timers.eraseIdx i } := by
  have hone := h.one
  have hstate : w.state = .kDisconnected := by
    by_contra hnot
    rw [if_neg hnot] at hone
    omega
  refine ⟨hstate, h.no_channel (by rw [hstate]; decide) hreset, ?_, ?_, hreset⟩
  · apply List.eq_nil_of_length_eq_zero
    show (w.timers.eraseIdx i).length = 0
    rw [List.length_eraseIdx_of_lt hi]
    omega
  · exact List.count_eq_zero.mp (show w.queue.count .startInLoop = 0 by omega)

/-! ## Steps and runs -/

/-- What holds in every live state of a disciplined run. -/
def Tidy (w : World) : Prop := w.dead = false → (Owned w ∧ Waiting w) ∧ Single w

/-- Error and writability in one event set: the process does not survive the second
    handler. -/
theorem handleEvent_dead (h : Single w) (hdead : w.dead = false) {revents : Revents} {i : Inputs}
    (hstate : w.state = .kConnecting) (herr : revents.epollerr = true ∨ revents.pollnval = true)
    (hout : revents.epollout = true) (hreused : i.reused = false) :
    (handleEvent w revents i).dead = true := by
  obtain ⟨⟨ch, hch, hindex⟩, -⟩ := h.connecting hstate
  obtain ⟨hlive, -, ch', hch', hfd', hindex', hreleased⟩ := handleError_live hdead hch hindex hstate i
  have hevent : handleEvent w revents i = handleWrite (handleError w i) i := by
    simp only [handleEvent, if_pos herr, hout, hlive, and_self, if_true]
  obtain ⟨hgone, hnone⟩ := removeAndResetChannel_dead hch' hindex' (hfd' ▸ hreleased)
  rw [hevent]
  simp only [handleWrite, hreused, hnone]
  exact hgone

theorem handleEvent_single (h : Single w) (howned : Owned w) (hdead : w.dead = false)
    (hwatch : w.watching = true) {revents : Revents} {i : Inputs}
    (hcond : NoErrorWithWrite w (.handleEvent revents i)) : Single (handleEvent w revents i) := by
  -- Only the channel of the attempt is watched
  have hstate : w.state = .kConnecting := by
    obtain ⟨ch, hch, hindex⟩ := registered_of_watching howned hwatch
    by_contra hnot
    exact hindex (h.settled hnot ch hch).1
  simp only [handleEvent]
  by_cases herr : revents.epollerr = true ∨ revents.pollnval = true
  · have hout : ¬revents.epollout = true := fun hout => hcond ⟨hstate, herr, hout⟩
    rw [if_pos herr, if_neg fun hboth => hout hboth.1]
    exact handleError_single h hdead hstate i
  · rw [if_neg herr]
    split
    · exact handleWrite_single h hdead hstate i
    · exact h

/-- A disciplined `connect()` in the loop thread finds a clear state. -/
theorem clear_of_start (h : Single w) {tid : ThreadId} {errno : Errno}
    (hcond : Disciplined w (.start tid errno)) (htid : tid = loopThread) :
    Clear { w with connect := true } := by
  obtain ⟨hstate, htimers, hstart, hreset⟩ := hcond
  have hnot : w.state ≠ .kConnecting := by
    rw [hstate]
    decide
  exact ⟨hstate, h.no_channel hnot (hreset htid), htimers, hstart, hreset htid⟩

theorem start_single (h : Single w) {tid : ThreadId} {errno : Errno}
    (hcond : Disciplined w (.start tid errno)) : Single (start w tid errno) := by
  simp only [start]
  split
  next htid => exact startInLoop_single (clear_of_start h hcond htid) errno
  · -- queued: the one attempt that is to come
    obtain ⟨hstate, htimers, hstart, -⟩ := hcond
    have hqueue : ({ w with connect := true }.queueInLoop .startInLoop).queue =
      w.queue ++ [.startInLoop] := (List.append_assoc _ _ _).symm
    have hcount : w.queue.count .startInLoop = 0 := List.count_eq_zero.mpr hstart
    refine h.push (by decide) hqueue rfl rfl ?_
    rw [hqueue, List.count_append, hcount]
    show 0 + List.count Functor.startInLoop [.startInLoop] + w.timers.length +
      (if w.state = .kDisconnected then 0 else 1) ≤ 1
    rw [htimers, if_pos hstate]
    decide

theorem stop_single (h : Single w) : Single (stop w) := by
  have hqueue : (stop w).queue = w.queue ++ [.stopInLoop] := (List.append_assoc _ _ _).symm
  refine h.push (by decide) hqueue rfl rfl ?_
  rw [hqueue, List.count_append]
  exact h.one

theorem swapFunctors_single (h : Single w) (hidle : w.functors = []) :
    Single { w with functors := w.pendingFunctors, pendingFunctors := [] } := by
  have hqueue : { w with functors := w.pendingFunctors, pendingFunctors := [] }.queue =
      w.queue := by simp [World.queue, hidle]
  exact ⟨hqueue ▸ h.connecting, hqueue ▸ h.settled, hqueue ▸ h.one, hqueue ▸ h.order⟩

/-- The functor at the head of the batch finds what it needs. -/
theorem runFunctor_oneAttempt (h : Single w) (howned : Owned w) (errno : Errno) :
    OneAttempt w (.runFunctor errno) := by
  constructor
  · intro gs hg
    exact (clear_of_functor h hg).entersClean errno
  · -- A new channel is in neither place of the poller
    intro gs hg ch hch
    have hstate := (resetChannel_single h hg).1
    have hreg := (howned.channel ch hch).2.1
    unfold Epoll.Registered at hreg
    rw [(h.settled hstate ch hch).1] at hreg
    exact hreg

theorem runFunctor_single (h : Single w) (hdead : w.dead = false) (errno : Errno) {f : Functor}
    {fs : List Functor} (hfs : w.functors = f :: fs) :
    Single (runFunctor { w with functors := fs } errno f) := by
  cases f with
  | startInLoop => exact startInLoop_single (clear_of_functor h hfs) errno
  | stopInLoop => exact stopInLoop_single (h.pop hfs (by decide) (by decide)) hdead
  | resetChannel => exact (resetChannel_single h hfs).2

/-- A disciplined step does one attempt at a time, and leaves the state tidy. -/
theorem step_tidy {a : Action} {w' : World} (h : Tidy w) (hclient : a.OfClient)
    (hcond : Disciplined w a) (hstep : step w a = some w') : OneAttempt w a ∧ Tidy w' := by
  obtain ⟨hdead, hsteps⟩ := steps_of_step hstep
  obtain ⟨howned, hsingle⟩ := h hdead
  -- The ownership of the sockets is kept unless the process ends
  have htidy (hno : NoErrorWithWrite w a) (hkept : Single w') : Tidy w' :=
    fun _ => ⟨step_owned howned hno hstep, hkept⟩
  cases hsteps with
  | start tid errno =>
      refine ⟨fun htid => ?_, htidy trivial (start_single hsingle hcond)⟩
      exact (clear_of_start hsingle hcond htid).entersClean errno
  | restart errno => exact absurd hclient not_false
  | stop => exact ⟨trivial, htidy trivial (stop_single hsingle)⟩
  | handleEvent revents i hidle hwatch =>
      refine ⟨trivial, ?_⟩
      by_cases hno : NoErrorWithWrite w (.handleEvent revents i)
      · exact htidy hno (handleEvent_single hsingle howned.1 hdead hwatch hno)
      · obtain ⟨hstate, herr, hout⟩ := not_not.mp hno
        have hreused : i.reused = false :=
          Bool.eq_false_iff.mpr fun hreused => hcond ⟨hstate, herr, hout, hreused⟩
        intro hlive
        rw [handleEvent_dead hsingle hdead hstate herr hout hreused] at hlive
        cases hlive
  | swapFunctors hidle => exact ⟨trivial, htidy trivial (swapFunctors_single hsingle hidle)⟩
  | runFunctor errno f fs hfs =>
      refine ⟨runFunctor_oneAttempt hsingle howned.1 errno, htidy trivial ?_⟩
      exact runFunctor_single hsingle hdead errno hfs
  | retryTimer i errno hi =>
      have hclear := clear_of_timer hsingle hi hcond
      exact ⟨hclear.entersClean errno, htidy trivial (startInLoop_single hclear errno)⟩

theorem newConnector_tidy : Tidy newConnector := by
  refine fun _ => ⟨newConnector_owned, ?_, ?_, Nat.zero_le 1, ?_⟩
  · intro hstate
    cases hstate
  · intro _ ch hch
    cases hch
  · exact order_of_noStart List.not_mem_nil

/-- **One attempt.**  In every run of client steps that keep the discipline, `startInLoop`
    is entered in `kDisconnected` only, `connecting()` without a channel only, and
    `resetChannel()` destroys no channel that the poller still knows. -/
theorem oneAttempt_of_disciplined {actions : List Action} {w : World}
    (hrun : run step newConnector actions = some w) (hclient : ∀ a ∈ actions, a.OfClient)
    (hcond : Along step Disciplined newConnector actions) :
    Along step OneAttempt newConnector actions :=
  along_of_along (I := Tidy)
    (fun _ _ _ h hcond hstep => step_tidy h hcond.1 hcond.2 hstep) newConnector_tidy hrun
    (hcond.and_forall hclient)

/-- Asked for by another thread, refused, reset, retried by the timer, connected. -/
theorem oneAttempt_of_disciplined_retried :
    ∃ w, run step newConnector [.start 1 .zero, .swapFunctors, .runFunctor .ECONNREFUSED,
        .retryTimer 0 .EINPROGRESS, .handleEvent { epollout := true } {}, .swapFunctors,
        .runFunctor .zero] = some w ∧
      Along step OneAttempt newConnector [.start 1 .zero, .swapFunctors, .runFunctor .ECONNREFUSED,
        .retryTimer 0 .EINPROGRESS, .handleEvent { epollout := true } {}, .swapFunctors,
        .runFunctor .zero] := by
  have hsome : (run step newConnector [.start 1 .zero, .swapFunctors, .runFunctor .ECONNREFUSED,
      .retryTimer 0 .EINPROGRESS, .handleEvent { epollout := true } {}, .swapFunctors,
      .runFunctor .zero]).isSome = true := by decide
  obtain ⟨w, hrun⟩ := Option.isSome_iff_exists.mp hsome
  exact ⟨w, hrun, oneAttempt_of_disciplined hrun (by simp [Action.OfClient]) (by decide +kernel)⟩

/-- `connect()` twice: the second attempt meets the first. -/
theorem not_oneAttempt_twice :
    ¬∀ (actions : List Action) (w : World), run step newConnector actions = some w →
      (∀ a ∈ actions, a.OfClient) → Along step OneAttempt newConnector actions := by
  intro h
  have hsome : (run step newConnector [.start loopThread .EINPROGRESS,
      .start loopThread .EINPROGRESS]).isSome = true := by decide
  obtain ⟨w, hrun⟩ := Option.isSome_iff_exists.mp hsome
  have hsecond := ((h _ w hrun (by simp [Action.OfClient])).2 _ rfl).1 rfl
  exact absurd hsecond.1 (by decide)

end Connector
end Youth.Net
