/-
  Youth.Net.TcpConnection.DownOnce

  A connection comes up once and goes down once.

  Everything but `connectEstablished`, `handleClose` and `connectDestroyed` is made of
  four kinds of `Edit`, none of which calls a callback that counts here; the invariant
  `Lifecycle` is proved for these once.  It ties the state to the interest in the poller
  and to the callbacks made so far: while the connection is up it is registered, once it
  is down nothing of it is left in the kernel, so no event can close it again.
-/

import Youth.Net.TcpConnection.Teardown
import Mathlib.Logic.Relation

namespace Youth.Net
namespace TcpConnection

open Youth.Lib Relation

/-! ## What the callbacks have seen -/

/-- The calls of the connection callback, by what `connected()` returned. -/
def World.connections (s : World) : List Bool :=
  s.callbacks.filterMap fun
    | .connection connected => some connected
    | _ => none

/-- The calls of the close callback. -/
def World.closes (s : World) : Nat := s.callbacks.count .close

/-- What the kernel reports: `EPOLLHUP` without `EPOLLIN` comes without `EPOLLPRI` and
    `EPOLLRDHUP`. -/
def Revents.FromKernel (revents : Revents) : Prop :=
  revents.epollhup = true → revents.epollin = false →
    revents.epollpri = false ∧ revents.epollrdhup = false

/-- The steps of a connection's life: the listed calls, and events as the kernel reports
    them. -/
def Action.OfLife (a : Action) : Prop :=
  a.Listed ∧
    match a with
    | .handleEvent revents _ => Revents.FromKernel revents
    | _ => True

def World.up (s : World) : Prop := s.conn.state = .kConnected ∨ s.conn.state = .kDisconnecting

def World.down (s : World) : Prop := s.conn.state = .kDisconnected

/-! ## Edits -/

/-- `s` and `t` differ at most in their bytes, counters and ghosts. -/
structure SameControl (s t : World) : Prop where
  state : t.conn.state = s.conn.state
  channel : t.conn.channel = s.conn.channel
  epoll : t.epoll = s.epoll
  callbacks : t.callbacks = s.callbacks
  closing : t.closing = s.closing
  queue : t.queue = s.queue

/-- One change that sending, shutting down and draining are made of. -/
inductive Edit (s : World) : World → Prop
  | data {t : World} (h : SameControl s t) : Edit s t
  | queue (f : Functor) (hup : s.up) (hread : f ≠ .startReadInLoop)
      (hdestroy : f ≠ .connectDestroyed) : Edit s (s.queueInLoop f)
  | disconnecting (hup : s.up) : Edit s (s.setState .kDisconnecting)
  /-- The interest in writing changes. -/
  | interest (write : Bool) (hup : s.up) :
      Edit s (s.onChannel (Channel.setEvents fun ch => { ch.events with write := write }))

/-- A sequence of edits. -/
abbrev Edits : World → World → Prop := ReflTransGen Edit

variable {s t u : World}

theorem Edit.up (h : Edit s t) (hup : s.up) : t.up := by
  cases h with
  | data h => simpa only [World.up, h.state] using hup
  | queue f hup hread hdestroy => exact hup
  | disconnecting hup => exact .inr rfl
  | interest write hup => exact hup

theorem Edits.up (h : Edits s t) (hup : s.up) : t.up := by
  induction h with
  | refl => exact hup
  | tail _ hedit ih => exact hedit.up ih

theorem shutdownInLoop_edits : Edits s (shutdownInLoop s) := by
  unfold shutdownInLoop
  split
  · exact .refl
  · exact .single (.data ⟨rfl, rfl, rfl, rfl, rfl, rfl⟩)

theorem writeDirectly_edits (hup : s.up) (data : List UInt8) (r : WriteResult) :
    Edits s (writeDirectly s data r).1 := by
  unfold writeDirectly
  split
  · cases r with
    | ok n =>
        have hwritten : Edits s { s with written := s.written ++ data.take (min n data.length) } :=
          .single (.data ⟨rfl, rfl, rfl, rfl, rfl, rfl⟩)
        dsimp only
        split
        · exact hwritten.tail (.queue .writeCompleteCallback (hwritten.up hup) (by decide) (by decide))
        · exact hwritten
    | error errno => exact .refl
  · exact .refl

theorem appendOutput_edits (hup : s.up) (rest : List UInt8) : Edits s (appendOutput s rest) := by
  unfold appendOutput
  -- First the high-water mark, then the bytes, then the interest
  obtain ⟨s1, hs1, hmark⟩ : ∃ s1, (if s.conn.highWaterMark ≤
      s.conn.outputBuffer.readableBytes + rest.length ∧
      s.conn.outputBuffer.readableBytes < s.conn.highWaterMark ∧ s.conn.highWaterMarkCallback then
        s.queueInLoop (.highWaterMarkCallback (s.conn.outputBuffer.readableBytes + rest.length))
      else s) = s1 ∧ Edits s s1 := by
    split
    · exact ⟨_, rfl, .single (.queue _ hup (by simp) (by simp))⟩
    · exact ⟨_, rfl, .refl⟩
  simp only [hs1]
  have hbytes : Edits s (s1.setOutput (s1.conn.outputBuffer.append rest)) :=
    hmark.tail (.data ⟨rfl, rfl, rfl, rfl, rfl, rfl⟩)
  split
  · exact hbytes
  · exact hbytes.tail (.interest true (hbytes.up hup))

theorem sendInLoop_edits (h : s.conn.state ≠ .kConnecting) (data : List UInt8) (r : WriteResult) :
    Edits s (sendInLoop s data r) := by
  unfold sendInLoop
  split
  · exact .refl
  next hdown =>
    have hup : s.up := by
      cases hs : s.conn.state with
      | kDisconnected => exact absurd hs hdown
      | kConnecting => exact absurd hs h
      | kConnected => exact .inl hs
      | kDisconnecting => exact .inr hs
    have hdirect := writeDirectly_edits hup data r
    dsimp only
    split
    · exact hdirect.trans (appendOutput_edits (hdirect.up hup) _)
    · exact hdirect

theorem sendMessage_edits (h : s.conn.state ≠ .kConnecting) (tid : ThreadId)
    (message : List UInt8) (r : WriteResult) : Edits s (sendMessage s tid message r) :=
  (sendInLoop_edits h message r).tail (.data ⟨rfl, rfl, rfl, rfl, rfl, rfl⟩)

theorem send_edits (tid : ThreadId) (message : List UInt8) (r : WriteResult) :
    Edits s (send s tid message r) := by
  unfold send
  split
  next hstate =>
    have hsent : Edits s { s with sent := s.sent ++ [(tid, message)] } :=
      .single (.data ⟨rfl, rfl, rfl, rfl, rfl, rfl⟩)
    split
    · refine hsent.trans (sendMessage_edits ?_ tid message r)
      show s.conn.state ≠ .kConnecting
      rw [hstate]
      decide
    · exact hsent.tail (.queue _ (.inl hstate) (by simp) (by simp))
  · exact .refl

theorem shutdown_edits (tid : ThreadId) : Edits s (shutdown s tid) := by
  unfold shutdown
  split
  next hstate =>
    have hset : Edits s (s.setState .kDisconnecting) := .single (.disconnecting (.inl hstate))
    split
    · exact hset.trans shutdownInLoop_edits
    · exact hset.tail (.queue _ (.inr rfl) (by decide) (by decide))
  · exact .refl

theorem forceClose_edits : Edits s (forceClose s) := by
  unfold forceClose
  split
  next hup =>
    exact ReflTransGen.tail (.single (.disconnecting hup)) (.queue _ (.inr rfl) (by decide) (by decide))
  · exact .refl

theorem forceCloseWithDelay_edits : Edits s (forceCloseWithDelay s) := by
  unfold forceCloseWithDelay
  split
  next hup =>
    exact ReflTransGen.tail (.single (.disconnecting hup)) (.data ⟨rfl, rfl, rfl, rfl, rfl, rfl⟩)
  · exact .refl

theorem call_edits (tid : ThreadId) {c : Call} (hc : c.Listed) : Edits s (call tid s c) := by
  cases c with
  | send message r => exact send_edits tid message r
  | sendBuffer buf r =>
      simp only [call, sendBuffer]
      split
      · exact send_edits tid buf.readable r
      · exact .refl
  | shutdown => exact shutdown_edits tid
  | forceClose => exact forceClose_edits
  | forceCloseWithDelay => exact forceCloseWithDelay_edits
  | startRead => exact absurd rfl hc.1
  | stopRead => exact absurd rfl hc.2
  | retrieve len => exact .single (.data ⟨rfl, rfl, rfl, rfl, rfl, rfl⟩)

theorem calls_edits {calls : List Call} (hcalls : ∀ c ∈ calls, c.Listed) (s : World) :
    Edits s (calls.foldl (call loopThread) s) :=
  List.foldlRecOn (motive := Edits s) calls (call loopThread) .refl
    fun _ hs c hc => hs.trans (call_edits loopThread (hcalls c hc))

theorem outputDrained_edits (hup : s.up) : Edits s (outputDrained s) := by
  have hinterest : Edits s (s.onChannel Channel.disableWriting) := .single (.interest false hup)
  simp only [outputDrained]
  split
  · have hqueue := hinterest.tail (.queue .writeCompleteCallback (hinterest.up hup) (by decide) (by decide))
    split
    · exact hqueue.trans shutdownInLoop_edits
    · exact hqueue
  · split
    · exact hinterest.trans shutdownInLoop_edits
    · exact hinterest

theorem handleWrite_edits (hup : s.conn.channel.isWriting = true → s.up) (r : WriteResult) :
    Edits s (handleWrite s r) := by
  simp only [handleWrite]
  split
  next hwriting =>
    have hdrain : Edits s (drainOutput s r) := by
      cases r with
      | ok n => exact .single (.data ⟨rfl, rfl, rfl, rfl, rfl, rfl⟩)
      | error errno => exact .single (.data ⟨rfl, rfl, rfl, rfl, rfl, rfl⟩)
    split
    · exact hdrain
    · exact hdrain.trans (outputDrained_edits (hdrain.up (hup hwriting)))
  · exact .refl

/-! ## The invariant -/

/-- The state says which callbacks have been made and what the poller knows. -/
structure Lifecycle (s : World) : Prop where
  registered : s.epoll.Registered s.conn.channel
  fresh : s.conn.state = .kConnecting →
    s.conn.channel.index = .kNew ∧ s.conn.channel.isWriting = false ∧ s.connections = [] ∧
      s.queue = []
  up : s.up → s.conn.channel.index = .kAdded ∧ s.conn.channel.isReading = true ∧
    s.connections = [true]
  /-- Before the connection is down nobody has been asked to destroy it. -/
  unclosed : ¬s.down → s.closes = 0 ∧ s.closing = 0 ∧ .connectDestroyed ∉ s.queue
  down : s.down → s.conn.channel.events = kNoneEvent ∧ s.epoll.kernel s.conn.channel.fd = none ∧
    s.connections = [true, false] ∧ s.closes ≤ 1
  noStartRead : .startReadInLoop ∉ s.queue

theorem not_down_of_up (h : s.up) : ¬s.down := alive_of_up h

theorem not_connecting_of_up (h : s.up) : s.conn.state ≠ .kConnecting := by
  rcases h with h | h <;> (rw [h]; decide)

theorem not_up_of_down (h : s.down) : ¬s.up := fun hup => not_down_of_up hup h

/-- The state is one of `kConnecting`, up and down. -/
theorem connecting_or_up_or_down (s : World) : s.conn.state = .kConnecting ∨ s.up ∨ s.down := by
  cases hs : s.conn.state with
  | kDisconnected => exact .inr (.inr hs)
  | kConnecting => exact .inl rfl
  | kConnected => exact .inr (.inl (.inl hs))
  | kDisconnecting => exact .inr (.inl (.inr hs))

theorem Lifecycle.of_sameControl (h : Lifecycle s) (e : SameControl s t) : Lifecycle t := by
  have hconnections : t.connections = s.connections := by rw [World.connections, e.callbacks]; rfl
  have hcloses : t.closes = s.closes := by rw [World.closes, e.callbacks]; rfl
  constructor
  · rw [e.epoll, e.channel]
    exact h.registered
  · rw [e.state, e.channel, hconnections, e.queue]
    exact h.fresh
  · rw [World.up, e.state, e.channel, hconnections]
    exact h.up
  · rw [World.down, e.state, hcloses, e.closing, e.queue]
    exact h.unclosed
  · rw [World.down, e.state, e.channel, e.epoll, hconnections, hcloses]
    exact h.down
  · rw [e.queue]
    exact h.noStartRead

theorem queue_queueInLoop (s : World) (f : Functor) : (s.queueInLoop f).queue = s.queue ++ [f] :=
  (List.append_assoc _ _ _).symm

/-- While the connection is up, changing the interest in writing leaves it registered for
    reading. -/
theorem setWrite_registered (h : Lifecycle s) (hup : s.up) (write : Bool) :
    (s.onChannel (Channel.setEvents fun ch => { ch.events with write := write })).conn.channel.index =
        .kAdded ∧
      (s.onChannel (Channel.setEvents fun ch =>
        { ch.events with write := write })).conn.channel.isReading = true := by
  have hreading : s.conn.channel.events.read = true := (h.up hup).2.1
  constructor
  · refine Channel.updateChannel_index ?_
    simp [Channel.isNoneEvent, kNoneEvent, hreading]
  · show (Channel.setEvents _ s.conn.channel s.epoll).val.1.events.read = true
    rw [Channel.setEvents_events]
    exact hreading

theorem Lifecycle.of_edit (h : Lifecycle s) (e : Edit s t) : Lifecycle t := by
  cases e with
  | data e => exact h.of_sameControl e
  | queue f hup hread hdestroy =>
      have hnot {g : Functor} (hg : f ≠ g) (hs : g ∉ s.queue) : g ∉ (s.queueInLoop f).queue := by
        rw [queue_queueInLoop]
        simp [hs, hg.symm]
      obtain ⟨hcloses, hclosing, hqueue⟩ := h.unclosed (not_down_of_up hup)
      exact ⟨h.registered, fun hstate => absurd hstate (not_connecting_of_up hup), h.up,
        fun _ => ⟨hcloses, hclosing, hnot hdestroy hqueue⟩, h.down, hnot hread h.noStartRead⟩
  | disconnecting hup =>
      refine ⟨h.registered, ?_, fun _ => h.up hup, fun _ => h.unclosed (not_down_of_up hup), ?_,
        h.noStartRead⟩
      · intro hstate
        cases hstate
      · intro hdown
        cases hdown
  | interest write hup =>
      obtain ⟨hindex, hreading⟩ := setWrite_registered h hup write
      exact ⟨(Channel.setEvents_registered h.registered _).1,
        fun hstate => absurd hstate (not_connecting_of_up hup),
        fun _ => ⟨hindex, hreading, (h.up hup).2.2⟩, h.unclosed,
        fun hdown => absurd hdown (not_down_of_up hup), h.noStartRead⟩

theorem Lifecycle.of_edits (h : Lifecycle s) (e : Edits s t) : Lifecycle t := by
  induction e with
  | refl => exact h
  | tail _ hedit ih => exact ih.of_edit hedit

/-- Edits call no callback. -/
theorem Edits.callbacks (e : Edits s t) : t.callbacks = s.callbacks := by
  induction e with
  | refl => rfl
  | tail _ hedit ih =>
      rw [← ih]
      cases hedit with
      | data e => exact e.callbacks
      | queue f hup hread hdestroy => rfl
      | disconnecting hup => rfl
      | interest write hup => rfl

/-- Edits take no connection down, and bring none back. -/
theorem Edit.down_iff (e : Edit s t) : t.down ↔ s.down := by
  cases e with
  | data e => rw [World.down, World.down, e.state]
  | queue f hup hread hdestroy => exact Iff.rfl
  | disconnecting hup => exact iff_of_false (not_down_of_up (.inr rfl)) (not_down_of_up hup)
  | interest write hup => exact Iff.rfl

theorem Edits.down_iff (e : Edits s t) : t.down ↔ s.down := by
  induction e with
  | refl => exact Iff.rfl
  | tail _ hedit ih => exact hedit.down_iff.trans ih

theorem Edits.down (e : Edits s t) (hdown : s.down) : t.down := e.down_iff.mpr hdown

/-- Callbacks other than those that count. -/
theorem userCallback_lifecycle (h : Lifecycle s) {c : Callback}
    (hc : ∀ connected, c ≠ .connection connected) (hclose : c ≠ .close) {calls : List Call}
    (hcalls : ∀ c ∈ calls, c.Listed) :
    Lifecycle (userCallback s c calls) ∧ (s.down → (userCallback s c calls).down) := by
  have hconnections : (s.callback c).connections = s.connections := by
    cases c with
    | connection connected => exact absurd rfl (hc connected)
    | _ => simp [World.connections, World.callback]
  have hcloses : (s.callback c).closes = s.closes := by
    simp [World.closes, World.callback, hclose]
  have hcalled : Lifecycle (s.callback c) := by
    refine ⟨h.registered, ?_, ?_, ?_, ?_, h.noStartRead⟩
    · rw [hconnections]
      exact h.fresh
    · rw [hconnections]
      exact h.up
    · rw [hcloses]
      exact h.unclosed
    · rw [hconnections, hcloses]
      exact h.down
  have hedits := calls_edits hcalls (s.callback c)
  exact ⟨hcalled.of_edits hedits, hedits.down⟩

/-! ## Coming up and going down -/

theorem connections_callback (s : World) (connected : Bool) :
    (s.callback (.connection connected)).connections = s.connections ++ [connected] := by
  simp [World.connections, World.callback]

theorem closes_callback_connection (s : World) (connected : Bool) :
    (s.callback (.connection connected)).closes = s.closes := by
  simp [World.closes, World.callback]

theorem connectEstablished_lifecycle (h : Lifecycle s) (hstate : s.conn.state = .kConnecting)
    {calls : List Call} (hcalls : ∀ c ∈ calls, c.Listed) :
    Lifecycle (connectEstablished s calls) := by
  obtain ⟨hindex, -, hconnections, hqueue⟩ := h.fresh hstate
  have halive : ¬s.down := by
    rw [World.down, hstate]
    decide
  have hcalled : Lifecycle ((((s.check (s.conn.state = .kConnecting) .connectEstablished).setState
      .kConnected).onChannel Channel.enableReading).callback (.connection true)) := by
    refine ⟨(Channel.setEvents_registered h.registered _).1, ?_, ?_, ?_, ?_, h.noStartRead⟩
    · intro hconnecting
      cases hconnecting
    · refine fun _ => ⟨?_, ?_, ?_⟩
      · refine Channel.updateChannel_index ?_
        simp [Channel.isNoneEvent, kNoneEvent]
      · exact congrArg Events.read (Channel.setEvents_events _ _ _)
      · rw [connections_callback]
        exact congrArg (· ++ [true]) hconnections
    · rw [closes_callback_connection]
      exact fun _ => h.unclosed halive
    · intro hdown
      cases hdown
  exact hcalled.of_edits (calls_edits hcalls _)

/-- State, events and callback of `handleClose`, on a connection that is up. -/
theorem disconnect_lifecycle (h : Lifecycle s) (hup : s.up) {calls : List Call}
    (hcalls : ∀ c ∈ calls, c.Listed) {t : World}
    (ht : connectionCallback ((s.setState .kDisconnected).onChannel Channel.disableAll) calls = t) :
    Lifecycle t ∧ t.down ∧ t.closes = 0 := by
  obtain ⟨hindex, -, hconnections⟩ := h.up hup
  obtain ⟨hcloses, -⟩ := h.unclosed (not_down_of_up hup)
  have hreg := (Channel.setEvents_registered h.registered fun _ => kNoneEvent).1
  -- An added channel without events is deleted in the kernel
  have hdeleted : (Channel.disableAll s.conn.channel s.epoll).val.1.index = .kDeleted := by
    simp [Channel.disableAll, Channel.setEvents, Epoll.updateChannel, hindex, Channel.isNoneEvent]
  have hkernel : (Channel.disableAll s.conn.channel s.epoll).val.2.kernel
      (Channel.disableAll s.conn.channel s.epoll).val.1.fd = none := by
    unfold Epoll.Registered at hreg
    rw [show (Channel.setEvents (fun _ => kNoneEvent) s.conn.channel s.epoll).val.1.index = .kDeleted
      from hdeleted] at hreg
    exact hreg.2
  have hcalled : Lifecycle (((s.setState .kDisconnected).onChannel Channel.disableAll).callback
      (.connection false)) := by
    refine ⟨hreg, ?_, ?_, fun halive => absurd rfl halive, fun _ => ⟨?_, hkernel, ?_, ?_⟩,
      h.noStartRead⟩
    · intro hconnecting
      cases hconnecting
    · rintro (hstate | hstate) <;> cases hstate
    · exact Channel.setEvents_events _ _ _
    · rw [connections_callback]
      exact congrArg (· ++ [false]) hconnections
    · rw [closes_callback_connection]
      exact (hcloses.le.trans (Nat.zero_le 1) : s.closes ≤ 1)
  have hedits := calls_edits hcalls (((s.setState .kDisconnected).onChannel
    Channel.disableAll).callback (.connection false))
  subst ht
  refine ⟨hcalled.of_edits hedits, hedits.down rfl, ?_⟩
  show List.count Callback.close _ = 0
  rw [show (connectionCallback ((s.setState .kDisconnected).onChannel Channel.disableAll)
    calls).callbacks = _ from hedits.callbacks]
  exact (closes_callback_connection _ false).trans hcloses

/-- `handleClose` of a connection that is up takes it down. -/
theorem handleClose_lifecycle (h : Lifecycle s) (hup : s.up) {calls : List Call}
    (hcalls : ∀ c ∈ calls, c.Listed) :
    Lifecycle (handleClose s calls) ∧ (handleClose s calls).down := by
  have hcheck : Lifecycle (s.check (s.conn.state = .kConnected ∨ s.conn.state = .kDisconnecting)
      .handleClose) := h.of_sameControl ⟨rfl, rfl, rfl, rfl, rfl, rfl⟩
  obtain ⟨hlife, hdown, hcloses⟩ := disconnect_lifecycle hcheck hup hcalls rfl
  refine ⟨⟨hlife.registered, ?_, ?_, fun halive => absurd hdown halive, ?_, hlife.noStartRead⟩,
    hdown⟩
  · exact fun hconnecting => absurd (hdown.symm.trans hconnecting) (by decide)
  · exact fun hup => absurd hup (not_up_of_down hdown)
  · obtain ⟨hevents, hkernel, hconnections, -⟩ := hlife.down hdown
    refine fun _ => ⟨hevents, hkernel, ?_, ?_⟩
    · rw [← hconnections]
      simp [World.connections, World.callback, handleClose]
    · have hone : (handleClose s calls).closes = _ + 1 := List.count_append.trans
        (congrArg _ List.count_cons_self)
      rw [hone]
      exact Nat.succ_le_succ hcloses.le

/-- Once the connection is down, `connectDestroyed` only removes the channel. -/
theorem connectDestroyed_lifecycle (h : Lifecycle s) (hdown : s.down) (calls : List Call) :
    Lifecycle (connectDestroyed s calls) ∧ (connectDestroyed s calls).down := by
  have hremove : connectDestroyed s calls = s.onChannel Channel.remove := by
    have hstate : s.conn.state ≠ .kConnected := fun hup => not_up_of_down hdown (.inl hup)
    simp only [connectDestroyed, if_neg hstate]
  rw [hremove]
  obtain ⟨hevents, -, hconnections, hcloses⟩ := h.down hdown
  refine ⟨⟨(Channel.remove_registered h.registered).1, ?_, ?_, fun halive => absurd hdown halive, ?_,
    h.noStartRead⟩, hdown⟩
  · exact fun hconnecting => absurd (hdown.symm.trans hconnecting) (by decide)
  · exact fun hup => absurd hup (not_up_of_down hdown)
  · exact fun _ => ⟨hevents, (Channel.remove_absent h.registered).2, hconnections, hcloses⟩

/-! ## Events and functors -/

theorem handleRead_lifecycle (h : Lifecycle s) (hup : s.up) (r : Except Nat (List UInt8))
    {calls : List Call} (hcalls : ∀ c ∈ calls, c.Listed) : Lifecycle (handleRead s r calls) := by
  have hread (x : Checked Buffer.Assert (Except Nat Nat × Buffer)) :
      Lifecycle { s with
        conn := { s.conn with inputBuffer := x.val.2 }
        faults := s.faults ++ x.faults.map .buffer } :=
    h.of_sameControl ⟨rfl, rfl, rfl, rfl, rfl, rfl⟩
  simp only [handleRead]
  split
  · exact (userCallback_lifecycle (hread _) (by simp) (by simp) hcalls).1
  · exact (handleClose_lifecycle (hread _) hup hcalls).1
  · exact hread _

/-- Only a connection that is up wants to write. -/
theorem Lifecycle.up_of_writing (h : Lifecycle s) (hwriting : s.conn.channel.isWriting = true) :
    s.up := by
  rcases connecting_or_up_or_down s with hconnecting | hup | hdown
  · rw [(h.fresh hconnecting).2.1] at hwriting
    cases hwriting
  · exact hup
  · rw [Channel.isWriting, (h.down hdown).1] at hwriting
    cases hwriting

theorem handleWrite_lifecycle (h : Lifecycle s) (r : WriteResult) : Lifecycle (handleWrite s r) :=
  h.of_edits (handleWrite_edits h.up_of_writing r)

/-- Events reach a connection only while it is up. -/
theorem Lifecycle.up_of_kernel (h : Lifecycle s)
    (hkernel : (s.epoll.kernel s.conn.channel.fd).isSome = true) : s.up := by
  rcases connecting_or_up_or_down s with hconnecting | hup | hdown
  · have hreg := h.registered
    unfold Epoll.Registered at hreg
    rw [(h.fresh hconnecting).1] at hreg
    rw [hreg.2] at hkernel
    cases hkernel
  · exact hup
  · rw [(h.down hdown).2.1] at hkernel
    cases hkernel

theorem handleEvent_lifecycle (h : Lifecycle s) (hup : s.up) {revents : Revents}
    (hrevents : Revents.FromKernel revents) {i : Inputs} (hclose : ∀ c ∈ i.closeCalls, c.Listed)
    (hread : ∀ c ∈ i.readCalls, c.Listed) : Lifecycle (handleEvent s revents i) := by
  have hwrite {u : World} (hu : Lifecycle u) :
      Lifecycle (if revents.epollout then handleWrite u i.write else u) := by
    split
    · exact handleWrite_lifecycle hu i.write
    · exact hu
  simp only [handleEvent]
  by_cases hhup : revents.epollhup = true ∧ ¬revents.epollin = true
  · -- A hang-up closes, and nothing is left to read
    have hin : revents.epollin = false := Bool.eq_false_iff.mpr hhup.2
    obtain ⟨hpri, hrdhup⟩ := hrevents hhup.1 hin
    have hnone : ¬(revents.epollin = true ∨ revents.epollpri = true ∨ revents.epollrdhup = true) := by
      simp [hin, hpri, hrdhup]
    simp only [if_pos hhup, if_neg hnone]
    exact hwrite (handleClose_lifecycle h hup hclose).1
  · rw [if_neg hhup]
    refine hwrite ?_
    split
    · exact handleRead_lifecycle h hup i.read hread
    · exact h

/-- A functor that waits has been queued by a connection that has come up. -/
theorem Lifecycle.not_connecting (h : Lifecycle s) {f : Functor} (hf : f ∈ s.queue) :
    s.conn.state ≠ .kConnecting := by
  intro hconnecting
  rw [(h.fresh hconnecting).2.2.2] at hf
  exact absurd hf List.not_mem_nil

theorem runFunctor_lifecycle {f : Functor} {fs : List Functor} (hfs : s.functors = f :: fs)
    (h : Lifecycle s) (r : WriteResult) {calls : List Call} (hcalls : ∀ c ∈ calls, c.Listed) :
    Lifecycle (runFunctor { s with functors := fs } f r calls) ∧
      (s.down → (runFunctor { s with functors := fs } f r calls).down) := by
  have hqueue : s.queue = f :: { s with functors := fs }.queue := by simp [World.queue, hfs]
  have hmem : f ∈ s.queue := by
    rw [hqueue]
    exact List.mem_cons_self
  have hestablished := h.not_connecting hmem
  have hpop : Lifecycle { s with functors := fs } := by
    have hless {g : Functor} (hg : g ∉ s.queue) : g ∉ { s with functors := fs }.queue := by
      intro hin
      rw [hqueue] at hg
      exact hg (List.mem_cons_of_mem _ hin)
    refine ⟨h.registered, fun hconnecting => absurd hconnecting hestablished, h.up, ?_, h.down,
      hless h.noStartRead⟩
    intro halive
    obtain ⟨hcloses, hclosing, hdestroy⟩ := h.unclosed halive
    exact ⟨hcloses, hclosing, hless hdestroy⟩
  have hedited {t : World} (e : Edits { s with functors := fs } t) :
      Lifecycle t ∧ (s.down → t.down) := ⟨hpop.of_edits e, fun hdown => e.down hdown⟩
  cases f with
  | sendInLoop tid message => exact hedited (sendMessage_edits (s := { s with functors := fs }) hestablished tid message r)
  | shutdownInLoop => exact hedited shutdownInLoop_edits
  | forceCloseInLoop =>
      simp only [runFunctor, forceCloseInLoop]
      split
      next hup =>
        obtain ⟨hlife, hdown⟩ := handleClose_lifecycle hpop hup hcalls
        exact ⟨hlife, fun _ => hdown⟩
      · exact ⟨hpop, fun hdown => hdown⟩
  | startReadInLoop => exact absurd hmem h.noStartRead
  | stopReadInLoop => exact hedited (.single (.data ⟨rfl, rfl, rfl, rfl, rfl, rfl⟩))
  | writeCompleteCallback => exact userCallback_lifecycle hpop (by simp) (by simp) hcalls
  | highWaterMarkCallback size => exact userCallback_lifecycle hpop (by simp) (by simp) hcalls
  | connectDestroyed =>
      -- Only the close callback has asked for it
      have hdown : s.down := by
        by_contra halive
        exact (h.unclosed halive).2.2 hmem
      obtain ⟨hlife, hdown⟩ := connectDestroyed_lifecycle hpop hdown calls
      exact ⟨hlife, fun _ => hdown⟩

/-- One step keeps the invariant, and a connection that is down stays down. -/
theorem step_lifecycle (h : Lifecycle s) {a : Action} (ha : a.OfLife) (hstep : step s a = some t) :
    Lifecycle t ∧ (s.down → t.down) := by
  obtain ⟨-, hsteps⟩ := steps_of_step hstep
  obtain ⟨hlisted, hkernelEvent⟩ := ha
  cases hsteps with
  | connectEstablished calls hstate =>
      exact ⟨connectEstablished_lifecycle h hstate hlisted,
        fun hdown => absurd (hdown.symm.trans hstate) (by decide)⟩
  | call tid c =>
      have hedits := call_edits (s := s) tid hlisted
      exact ⟨h.of_edits hedits, hedits.down⟩
  | handleEvent revents i hidle hkernel =>
      -- the kernel reports on a connection only while it is up
      have hup := h.up_of_kernel hkernel
      exact ⟨handleEvent_lifecycle h hup hkernelEvent hlisted.1 hlisted.2,
        fun hdown => absurd hdown (not_down_of_up hup)⟩
  | swapFunctors hidle =>
      have hqueue : { s with functors := s.pendingFunctors, pendingFunctors := [] }.queue = s.queue := by
        simp [World.queue, hidle]
      exact ⟨h.of_sameControl ⟨rfl, rfl, rfl, rfl, rfl, hqueue⟩, fun hdown => hdown⟩
  | runFunctor r calls f fs hfs => exact runFunctor_lifecycle hfs h r hlisted
  | forceCloseTimer hdelayed =>
      have hfired : Edits s { s with delayed := s.delayed - 1 } :=
        .single (.data ⟨rfl, rfl, rfl, rfl, rfl, rfl⟩)
      have hedits : Edits s (forceClose _) := hfired.trans forceClose_edits
      exact ⟨h.of_edits hedits, hedits.down⟩
  | removeConnection hclosing =>
      -- the close callback has been called, so the connection is down
      have hdown : s.down := by
        by_contra halive
        exact absurd (h.unclosed halive).2.1 hclosing.ne'
      refine ⟨⟨h.registered, ?_, h.up, fun halive => absurd hdown halive, h.down, ?_⟩,
        fun hdown => hdown⟩
      · exact fun hconnecting => absurd (hdown.symm.trans hconnecting) (by decide)
      · rw [queue_queueInLoop]
        exact fun hmem => (List.mem_append.mp hmem).elim h.noStartRead (by simp)

theorem newConnection_lifecycle {self fd : Nat} {epoll : Epoll} {wc hw : Bool} {mark : Nat}
    (hmap : epoll.channelMap fd = none) (hkernel : epoll.kernel fd = none) :
    Lifecycle (newConnection self fd epoll wc hw mark) where
  registered := ⟨hmap, hkernel⟩
  fresh := fun _ => ⟨rfl, rfl, rfl, rfl⟩
  up := by rintro (hstate | hstate) <;> cases hstate
  unclosed := fun _ => ⟨rfl, rfl, List.not_mem_nil⟩
  down := fun hdown => by cases hdown
  noStartRead := List.not_mem_nil

theorem run_lifecycle (h : Lifecycle s) {actions : List Action} (hactions : ∀ a ∈ actions, a.OfLife)
    (hrun : run step s actions = some t) : Lifecycle t ∧ (s.down → t.down) := by
  refine run_invariant_of (I := fun u => Lifecycle u ∧ (s.down → u.down)) ?_ hactions
    ⟨h, fun hdown => hdown⟩ hrun
  intro u a v ha hu hstep
  obtain ⟨hlife, hdown⟩ := step_lifecycle hu.1 ha hstep
  exact ⟨hlife, fun hs => hdown (hu.2 hs)⟩

/-! ## The result -/

/-- **Down once.**  In every state of every run the connection callback has been called
    with `connected()` and then with `not connected()`, each at most once, the close
    callback at most once, and `kDisconnected` is final. -/
theorem goes_down_once (self fd : Nat) {epoll : Epoll} (wc hw : Bool) (mark : Nat)
    (hmap : epoll.channelMap fd = none) (hkernel : epoll.kernel fd = none) {actions : List Action}
    (hactions : ∀ a ∈ actions, a.OfLife) {s : World}
    (hrun : run step (newConnection self fd epoll wc hw mark) actions = some s) :
    s.connections <+: [true, false] ∧ s.closes ≤ 1 ∧
      (s.conn.state = .kDisconnected → ∀ (more : List Action) (t : World),
        (∀ a ∈ more, a.OfLife) → run step s more = some t → t.conn.state = .kDisconnected) := by
  have h := (run_lifecycle (newConnection_lifecycle hmap hkernel) hactions hrun).1
  refine ⟨?_, ?_, fun hdown more t hmore hrun => (run_lifecycle h hmore hrun).2 hdown⟩
  · rcases connecting_or_up_or_down s with hconnecting | hup | hdown
    · rw [(h.fresh hconnecting).2.2.1]
      exact List.nil_prefix
    · rw [(h.up hup).2.2]
      exact ⟨[false], rfl⟩
    · exact ⟨[], by rw [(h.down hdown).2.2.1, List.append_nil]⟩
  · by_cases hdown : s.down
    · exact (h.down hdown).2.2.2
    · rw [(h.unclosed hdown).1]
      exact Nat.zero_le 1

/-- A peer that closes while a force close is queued: both callbacks have been made, and
    the second close finds the connection down. -/
theorem goes_down_once_closed :
    ∃ s, run step (newConnection 1 3 Epoll.empty false false 0)
        [.connectEstablished [.forceClose], .handleEvent { epollin := true, epollout := true } {},
          .swapFunctors, .runFunctor (.ok 0) [], .removeConnection] = some s ∧
      s.connections <+: [true, false] ∧ s.closes ≤ 1 ∧ s.conn.state = .kDisconnected ∧
      ∀ (more : List Action) (t : World), (∀ a ∈ more, a.OfLife) → run step s more = some t →
        t.conn.state = .kDisconnected := by
  have hsome : ((run step (newConnection 1 3 Epoll.empty false false 0)
      [.connectEstablished [.forceClose], .handleEvent { epollin := true, epollout := true } {},
        .swapFunctors, .runFunctor (.ok 0) [], .removeConnection]).map fun s => s.conn.state) =
      some .kDisconnected := by decide +kernel
  obtain ⟨s, hrun, hstate⟩ := Option.map_eq_some_iff.mp hsome
  have hlife : ∀ a ∈ [Action.connectEstablished [.forceClose],
      .handleEvent { epollin := true, epollout := true } {}, .swapFunctors, .runFunctor (.ok 0) [],
      .removeConnection], a.OfLife := by
    simp [Action.OfLife, Action.Listed, Call.Listed, Revents.FromKernel]
  obtain ⟨hconnections, hcloses, hfinal⟩ :=
    goes_down_once 1 3 false false 0 rfl rfl hlife hrun
  exact ⟨s, hrun, hconnections, hcloses, hstate, hfinal hstate⟩

end TcpConnection
end Youth.Net
