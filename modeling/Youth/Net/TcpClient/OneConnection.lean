/-
  Youth.Net.TcpClient.OneConnection

  A client has one connection at a time, also when it connects again by itself.

  When a connection goes down, the connector finds nothing left of the attempt that made
  it (`Live.clear`), and the connection is the one that the client has.  What is asked is
  what `Connector.Disciplined` asks: `connect()` comes when nothing is left of an earlier
  attempt, a retry timer fires behind the queued reset, and the number of a descriptor that
  `handleError` has closed is not in use again at the `EPOLLOUT` of the same event.
-/

import Youth.Net.TcpClient.InLoop

namespace Youth.Net
namespace TcpClient

open Youth.Lib

/-- What a step of the client makes the connector do. -/
def World.calls (w : World) : Action → Option Connector.Action
  | .connect tid errno => some (.start tid errno)
  | .stop => some .stop
  | .handleEvent revents i _ => some (.handleEvent revents i)
  | .retryTimer i errno => some (.retryTimer i errno)
  | .hangUp _ errno => if w.retry ∧ w.connect then some (.restart errno) else none
  | .swapFunctors => some .swapFunctors
  | .runFunctor errno =>
    match w.functors with
    | .connector _ :: _ => some (.runFunctor errno)
    | .forceCloseInLoop conn :: _ =>
      if conn ∈ w.up ∧ w.retry ∧ w.connect then some (.restart errno) else none
    | _ => none
  | .disconnect | .enableRetry | .forceClose _ | .poll => none

/-- The care to be taken with the connector. -/
def Disciplined (w : World) (a : Action) : Prop := ∀ b ∈ w.calls a, Connector.Disciplined w.connector b

instance (w : World) (a : Action) : Decidable (Disciplined w a) :=
  inferInstanceAs (Decidable (∀ b ∈ w.calls a, Connector.Disciplined w.connector b))

/-- The step does not meet another attempt. -/
def OneAttempt (w : World) (a : Action) : Prop := ∀ b ∈ w.calls a, Connector.OneAttempt w.connector b

/-- A connection is made when there is none, and the one that goes down is the client's:
    `assert(m_tcpConnectionPtr == conn)`. -/
def Event.Expected : Event → Prop
  | .connected _ found => found = none
  | .closed conn found => found = some conn
  | .destroyed _ => True

/-- The state of a client whose process is alive. -/
structure Live (w : World) : Prop where
  tidy : (Connector.Owned w.connector ∧ Connector.Waiting w.connector) ∧ Connector.Single w.connector
  inLoop : InLoop w

variable {w : World} {c : Connector.World} {conn : Connection}

/-! ## A connection goes down -/

/-- Behind the reset, nothing is left of the attempt that made the connection. -/
theorem Live.clear (h : Live w) (hup : conn ∈ w.up) (hreset : .connector .resetChannel ∉ w.queue) :
    Connector.Clear { w.connector with
      state := .kDisconnected, retryDelayMs := Connector.kInitRetryDelayMs, connect := true } := by
  have hstate := (h.inLoop.held conn hup).state
  have hone := h.tidy.2.one
  rw [hstate, if_neg (by decide)] at hone
  have hreset' : .resetChannel ∉ w.connector.queue := fun hmem => hreset (h.inLoop.mem_queue hmem)
  refine ⟨rfl, h.tidy.2.no_channel (by rw [hstate]; decide) hreset', ?_, ?_, hreset'⟩
  · exact List.eq_nil_of_length_eq_zero (show w.connector.timers.length = 0 by omega)
  · exact List.count_eq_zero.mp (show w.connector.queue.count .startInLoop = 0 by omega)

theorem InLoop.tcpConnection (h : InLoop w) (hup : conn ∈ w.up) :
    w.tcpConnection = some conn ∧ w.up = [conn] := by
  have hone := h.one
  rw [hone, Option.mem_toList] at hup
  rw [hone, hup]
  exact ⟨rfl, rfl⟩

theorem restart_step (hdead : c.dead = false) (errno : Connector.Errno) :
    Connector.step c (.restart errno) = some (Connector.restart c errno) := by
  rw [Connector.step, hdead]
  rfl

theorem handleClose_live (h : Live w) (hdead : w.connector.dead = false) (hup : conn ∈ w.up)
    (hreset : .connector .resetChannel ∉ w.queue) (errno : Connector.Errno) :
    Live (handleClose w conn errno) := by
  have herase : w.up.erase conn = [] := by
    rw [(h.inLoop.tcpConnection hup).2]
    exact List.erase_cons_head _ _
  have hdown : InLoop { w with
      up := [], tcpConnection := none, log := w.log ++ [.closed conn w.tcpConnection] } := by
    refine ⟨h.inLoop.functors, h.inLoop.pendingFunctors, rfl, fun _ hmem => ?_, fun conn hmem => ?_,
      h.inLoop.idle⟩
    · cases hmem
    · rcases hmem with hmem | hmem
      · cases hmem
      · exact h.inLoop.known conn (.inr hmem)
  have hpush := hdown.push (f := .connectDestroyed conn) (by simp) (by simp) rfl rfl rfl
    (List.append_nil _).symm
  simp only [handleClose, removeConnection, herase]
  split
  · have hclear := h.clear hup hreset
    have hstep := restart_step hdead errno
    have hquiet : Connector.NoErrorWithWrite w.connector (.restart errno) := trivial
    refine ⟨⟨Connector.step_owned h.tidy.1 hquiet hstep, Connector.startInLoop_single hclear errno⟩, ?_⟩
    exact hpush.follow rfl (Connector.restart_pushes (.refl _) errno) (Connector.step_log hstep)
  · exact ⟨h.tidy, hpush⟩

/-! ## Steps -/

theorem Live.down_of_timer (h : Live w) {i : Nat} (hi : i < w.connector.timers.length) :
    w.up = [] := by
  refine h.inLoop.down_of_state fun hstate => ?_
  have hone := h.tidy.2.one
  rw [hstate, if_neg (by decide)] at hone
  omega

/-- An event of the connector hands over nothing, or one socket to a client without a
    connection. -/
theorem handleEvent_live (h : Live w) (hturn : w.handling = true) {revents : Revents}
    {i : Connector.Inputs} (hc : Connector.step w.connector (.handleEvent revents i) = some c)
    (hcond : Connector.Disciplined w.connector (.handleEvent revents i)) (htidy : Connector.Tidy c)
    (peerAddr : HostAddress) :
    w.up = [] ∧
      (Connector.delivered (c.log.drop w.connector.log.length) = [] ∧
          (c.dead = false → Live (w.withConnector c)) ∨
        ∃ sock, Connector.delivered (c.log.drop w.connector.log.length) = [sock] ∧
          (c.dead = false → Live (newConnection (w.withConnector c) sock peerAddr))) := by
  have hlog := Connector.step_log hc
  obtain ⟨hdead, hsteps⟩ := Connector.steps_of_step hc
  obtain ⟨⟨howned, -⟩, hsingle⟩ := h.tidy
  cases hsteps with
  | handleEvent _ _ hidle hwatch =>
      have hconnecting := Connector.connecting_of_watching hsingle howned hwatch
      have hdown : w.up = [] := h.inLoop.down_of_state (by rw [hconnecting]; decide)
      have hfollow := h.inLoop.follow hdown (Connector.handleEvent_pushes (.refl _) revents i) hlog
      have hsplit := Connector.delivered_drop hlog
      refine ⟨hdown, ?_⟩
      rcases Connector.handleEvent_handsOver hsingle howned hdead hwatch hcond with
        hnothing | ⟨hconnected, sock, hnew, hsock⟩
      · left
        rw [hnothing] at hsplit
        exact ⟨(List.self_eq_append_right.mp hsplit), fun hlive => ⟨htidy hlive, hfollow⟩⟩
      · right
        rw [hsock] at hsplit
        refine ⟨sock, (List.append_cancel_left hsplit).symm, fun hlive => ⟨htidy hlive, ?_⟩⟩
        refine newConnection_inLoop hfollow hdown hturn hconnected (fun conn hmem heq => ?_) ?_ peerAddr
        · -- what the loop knows was given up before
          refine hnew (heq ▸ h.inLoop.known conn (.inr (hmem.imp_right fun hqueue => ?_)))
          obtain ⟨-, fs, hpending⟩ := Connector.handleEvent_pushes (.refl w.connector) revents i
          rw [withConnector_eq hpending.symm] at hqueue
          rcases List.mem_append.mp hqueue with hqueue | hqueue
          · exact List.mem_append_left _ hqueue
          · rcases List.mem_append.mp hqueue with hqueue | hqueue
            · exact List.mem_append_right _ hqueue
            · exact absurd hqueue (forceCloseInLoop_not_mem fs)
        · refine Connector.released_of_delivered ?_
          show sock ∈ Connector.delivered (Connector.handleEvent w.connector revents i).log
          rw [hsock]
          exact List.mem_append_right _ List.mem_cons_self

/-- A functor of the connector. -/
theorem connectorFunctor_live (h : Live w) {f : Connector.Functor} {fs : List Functor}
    (hfs : w.functors = .connector f :: fs) {errno : Connector.Errno}
    (hc : Connector.step w.connector (.runFunctor errno) = some c) (htidy : Connector.Tidy c) :
    c.dead = false → Live ({ w with functors := fs }.withConnector c) := by
  intro hlive
  refine ⟨htidy hlive, ?_⟩
  have hlog := Connector.step_log hc
  obtain ⟨-, hsteps⟩ := Connector.steps_of_step hc
  cases hsteps with
  | runFunctor _ g gs hgs =>
      -- the connector's next functor is the one that the loop has taken
      have hfunctors := h.inLoop.functors
      rw [hgs, hfs, List.filterMap_cons_some (f := Functor.connector?) rfl] at hfunctors
      obtain ⟨rfl, hrest⟩ := List.cons.inj hfunctors
      have hpop {c : Connector.World} (hstate : c.state = w.connector.state)
          (hlog : c.log = w.connector.log) (hgs' : c.functors = gs)
          (hpending : c.pendingFunctors = w.connector.pendingFunctors) :
          InLoop ({ w with functors := fs }.withConnector c) := by
        rw [withConnector_same (w := { w with functors := fs }) hpending]
        exact h.inLoop.pop hfs hstate hlog (hgs.trans (by rw [hgs']; rfl)) hpending
      have hfollow (hstate : w.connector.state ≠ .kConnected) :
          InLoop ({ w with functors := fs }.withConnector
            (Connector.runFunctor { w.connector with functors := gs } errno g)) := by
        have hpopped : InLoop { w with
            connector := { w.connector with functors := gs }, functors := fs } :=
          h.inLoop.pop hfs rfl rfl hgs rfl
        exact hpopped.follow (h.inLoop.down_of_state hstate)
          (Connector.runFunctor_pushes (.refl _) errno g) hlog
      cases g with
      | startInLoop =>
          have hclear := Connector.clear_of_functor h.tidy.2 hgs
          exact hfollow (by rw [show w.connector.state = .kDisconnected from hclear.state]; decide)
      | stopInLoop =>
          by_cases hstate : w.connector.state = .kConnecting
          · exact hfollow (by rw [hstate]; decide)
          · have hidle : Connector.runFunctor { w.connector with functors := gs } errno .stopInLoop =
                { w.connector with functors := gs } := if_neg hstate
            rw [hidle]
            exact hpop rfl rfl rfl rfl
      | resetChannel => exact hpop rfl rfl rfl rfl

/-- The connection may go down here: a `restart` meets no other attempt. -/
theorem Live.oneAttempt_restart (h : Live w) (hup : conn ∈ w.up)
    (hreset : .connector .resetChannel ∉ w.queue) (errno : Connector.Errno) :
    Connector.OneAttempt w.connector (.restart errno) := (h.clear hup hreset).entersClean errno

/-- The functor that closes a connection is behind the reset. -/
theorem Live.forceCloseInLoop (h : Live w) {fs : List Functor}
    (hfs : w.functors = .forceCloseInLoop conn :: fs) (hup : conn ∈ w.up) :
    Live { w with functors := fs } ∧ .connector .resetChannel ∉ w.queue ∧
      .connector .resetChannel ∉ { w with functors := fs }.queue := by
  have hqueue : w.queue = .forceCloseInLoop conn :: { w with functors := fs }.queue := by
    rw [World.queue, hfs]
    rfl
  have horder := (h.inLoop.held conn hup).order
  rw [hqueue, List.pairwise_cons] at horder
  have hrest : .connector .resetChannel ∉ { w with functors := fs }.queue := fun hmem =>
    horder.1 _ hmem rfl rfl
  refine ⟨⟨h.tidy, h.inLoop.pop hfs rfl rfl rfl rfl⟩, ?_, hrest⟩
  rw [hqueue, List.mem_cons]
  exact not_or.mpr ⟨by simp, hrest⟩

/-- A step of a live client. -/
theorem step_live {a : Action} {w' : World} (h : Live w) (hcond : Disciplined w a)
    (hdead : w.connector.dead = false) (hsteps : Steps w a w') :
    OneAttempt w a ∧ (w'.connector.dead = false → Live w') := by
  -- a step that leaves the connector alone
  have hnone {a : Action} (hcalls : w.calls a = none) : OneAttempt w a := fun b hb => by
    rw [hcalls] at hb
    cases hb
  -- a step of the connector
  have hsome {a : Action} {b : Connector.Action} {c : Connector.World} (hcalls : w.calls a = some b)
      (hcond : Disciplined w a) (hclient : b.OfClient)
      (hc : Connector.step w.connector b = some c) : OneAttempt w a ∧ Connector.Tidy c := by
    obtain ⟨hone, htidy⟩ := Connector.step_tidy (fun _ => h.tidy) hclient (hcond b hcalls) hc
    refine ⟨fun b' hb' => ?_, htidy⟩
    rw [hcalls] at hb'
    cases hb'
    exact hone
  cases hsteps with
  | connect tid errno =>
      have hc : Connector.step w.connector (.start tid errno) =
          some (Connector.start w.connector tid errno) := by rw [Connector.step, hdead]; rfl
      obtain ⟨hone, htidy⟩ := hsome (b := .start tid errno) rfl hcond trivial hc
      obtain ⟨hstate, -⟩ : Connector.Disciplined w.connector (.start tid errno) := hcond _ rfl
      refine ⟨hone, fun hlive => ⟨htidy hlive, ?_⟩⟩
      have hdown : w.up = [] := h.inLoop.down_of_state (by rw [hstate]; decide)
      have hsame : InLoop { w with connect := true } := h.inLoop.of_same rfl
      exact hsame.follow hdown (Connector.start_pushes (.refl _) tid errno) (Connector.step_log hc)
  | disconnect => exact ⟨hnone rfl, fun _ => ⟨h.tidy, h.inLoop.of_same rfl⟩⟩
  | stop =>
      have hc : Connector.step w.connector .stop = some (Connector.stop w.connector) := by
        rw [Connector.step, hdead]
        rfl
      obtain ⟨hone, htidy⟩ := hsome (b := .stop) rfl hcond trivial hc
      refine ⟨hone, fun hlive => ⟨htidy hlive, ?_⟩⟩
      have hsame : InLoop { w with connect := false } := h.inLoop.of_same rfl
      rw [stop, withConnector_eq (w := { w with connect := false }) rfl]
      exact hsame.push (f := .connector .stopInLoop) (by simp) nofun rfl rfl rfl rfl
  | enableRetry => exact ⟨hnone rfl, fun _ => ⟨h.tidy, h.inLoop.of_same rfl⟩⟩
  | forceClose conn =>
      refine ⟨hnone rfl, fun _ => ?_⟩
      unfold forceClose
      split
      next hup =>
        refine ⟨h.tidy, h.inLoop.push nofun (fun conn' heq => ?_) rfl rfl rfl (List.append_nil _).symm⟩
        cases heq
        exact hup
      · exact h
  | poll hturn hidle => exact ⟨hnone rfl, fun _ => ⟨h.tidy, h.inLoop.poll hturn hidle⟩⟩
  | handleEvent revents i peerAddr c hturn hc =>
      obtain ⟨hone, htidy⟩ := hsome (b := .handleEvent revents i) rfl hcond trivial hc
      refine ⟨hone, fun hlive => ?_⟩
      rcases (handleEvent_live h hturn hc (hcond _ rfl) htidy peerAddr).2 with
        ⟨hsocks, hkept⟩ | ⟨sock, hsocks, hkept⟩
      · rw [hsocks] at hlive ⊢
        exact hkept hlive
      · rw [hsocks] at hlive ⊢
        exact hkept hlive
  | retryTimer i errno c hc =>
      obtain ⟨hone, htidy⟩ := hsome (b := .retryTimer i errno) rfl hcond trivial hc
      refine ⟨hone, fun hlive => ⟨htidy hlive, ?_⟩⟩
      have hlog := Connector.step_log hc
      obtain ⟨-, hsteps⟩ := Connector.steps_of_step hc
      cases hsteps with
      | retryTimer _ _ hi =>
          refine h.inLoop.follow (h.down_of_timer hi) ?_ hlog
          exact Connector.startInLoop_pushes (w := { w.connector with timers := _ }) (.refl _) errno
  | hangUp conn errno hpolled hup =>
      have hreset := (h.inLoop.held conn hup).polled hpolled
      refine ⟨fun b hb => ?_, fun _ => handleClose_live h hdead hup hreset errno⟩
      obtain ⟨-, rfl⟩ : (w.retry ∧ w.connect) ∧ Connector.Action.restart errno = b := by
        simpa [World.calls] using hb
      exact h.oneAttempt_restart hup hreset errno
  | swapFunctors c hturn hc =>
      obtain ⟨hone, htidy⟩ := hsome (b := .swapFunctors) rfl hcond trivial hc
      refine ⟨hone, fun hlive => ⟨htidy hlive, ?_⟩⟩
      obtain ⟨-, hsteps⟩ := Connector.steps_of_step hc
      cases hsteps
      exact h.inLoop.swap hturn rfl rfl rfl rfl
  | connectorFunctor errno f fs c hfs hc =>
      have hcalls : w.calls (.runFunctor errno) = some (.runFunctor errno) := by
        simp [World.calls, hfs]
      obtain ⟨hone, htidy⟩ := hsome (b := .runFunctor errno) hcalls hcond trivial hc
      exact ⟨hone, connectorFunctor_live h hfs hc htidy⟩
  | forceCloseInLoop errno conn fs hfs hup =>
      obtain ⟨hpopped, hreset, hrest⟩ := h.forceCloseInLoop hfs hup
      refine ⟨fun b hb => ?_, fun _ => handleClose_live hpopped hdead hup hrest errno⟩
      obtain ⟨-, rfl⟩ : (w.retry ∧ w.connect) ∧ Connector.Action.restart errno = b := by
        simpa [World.calls, hfs, hup] using hb
      exact h.oneAttempt_restart hup hreset errno
  | forceCloseDown errno conn fs hfs hdown =>
      refine ⟨hnone ?_, fun _ => ⟨h.tidy, h.inLoop.pop hfs rfl rfl rfl rfl⟩⟩
      simp only [World.calls, hfs]
      exact if_neg fun hup => hdown hup.1
  | connectDestroyed errno conn fs hfs =>
      have hpopped : InLoop { w with functors := fs } := h.inLoop.pop hfs rfl rfl rfl rfl
      exact ⟨hnone (by simp [World.calls, hfs]), fun _ => ⟨h.tidy, hpopped.of_same rfl⟩⟩

/-! ## The connections of a run -/

def Event.connected? : Event → Option Connection
  | .connected conn _ => some conn
  | _ => none

def Event.destroyed? : Event → Option Connection
  | .destroyed conn => some conn
  | _ => none

def Functor.connectDestroyed? : Functor → Option Connection
  | .connectDestroyed conn => some conn
  | _ => none

/-- The connections that were made, in order. -/
def World.made (w : World) : List Connection := w.log.filterMap Event.connected?

def World.destroyed (w : World) : List Connection := w.log.filterMap Event.destroyed?

/-- The connections that `connectDestroyed` is queued for. -/
def World.waiting (w : World) : List Connection := w.queue.filterMap Functor.connectDestroyed?

structure Booked (w : World) : Prop where
  expected : ∀ e ∈ w.log, e.Expected
  order : w.made = w.destroyed ++ w.waiting ++ w.up
  delivered : w.made.map Connection.sock = Connector.delivered w.connector.log

theorem Booked.of_same (h : Booked w) {w' : World} (hlog : w'.log = w.log) (hup : w'.up = w.up)
    (hwaiting : w'.waiting = w.waiting)
    (hdelivered : Connector.delivered w'.connector.log = Connector.delivered w.connector.log) :
    Booked w' := by
  have hmade : w'.made = w.made := congrArg (List.filterMap Event.connected?) hlog
  have hdestroyed : w'.destroyed = w.destroyed := congrArg (List.filterMap Event.destroyed?) hlog
  refine ⟨hlog ▸ h.expected, ?_, ?_⟩
  · rw [hmade, hdestroyed, hwaiting, hup]
    exact h.order
  · rw [hmade, hdelivered]
    exact h.delivered

theorem withConnector_waiting (w : World) (c : Connector.World) :
    (w.withConnector c).waiting = w.waiting := by
  have hnone (fs : List Connector.Functor) :
      (fs.map Functor.connector).filterMap Functor.connectDestroyed? = [] := by
    rw [List.filterMap_map, List.filterMap_eq_nil_iff]
    exact fun _ _ => rfl
  rw [World.waiting, World.queue, World.withConnector, ← List.append_assoc, List.filterMap_append,
    hnone, List.append_nil]
  rfl

/-- A functor of another kind leaves the queue. -/
theorem waiting_pop {f : Functor} {fs : List Functor} (hfs : w.functors = f :: fs) :
    w.waiting = f.connectDestroyed?.toList ++ { w with functors := fs }.waiting := by
  rw [World.waiting, World.queue, hfs, List.cons_append]
  cases hf : f.connectDestroyed? with
  | none => exact List.filterMap_cons_none hf
  | some conn => exact List.filterMap_cons_some hf

theorem waiting_push (w : World) (f : Functor) :
    (w.queueInLoop f).waiting = w.waiting ++ f.connectDestroyed?.toList := by
  have hqueue : (w.queueInLoop f).queue = w.queue ++ [f] := (List.append_assoc _ _ _).symm
  rw [World.waiting, hqueue, List.filterMap_append]
  cases hf : f.connectDestroyed? <;> simp [hf, World.waiting]

/-- A step of the connector that is no event. -/
theorem Booked.follow (h : Booked w) {b : Connector.Action}
    (hc : Connector.step w.connector b = some c) (hb : ∀ revents i, b ≠ .handleEvent revents i) :
    Booked (w.withConnector c) :=
  h.of_same rfl rfl (withConnector_waiting w c)
    (Connector.step_delivered (Connector.steps_of_step hc).2 hb)

theorem newConnection_booked (h : Booked w) (hup : w.up = []) (htcp : w.tcpConnection = none)
    (hwaiting : w.made = w.destroyed ++ w.waiting) {sock : Nat}
    (hsock : Connector.delivered c.log = Connector.delivered w.connector.log ++ [sock])
    (peerAddr : HostAddress) : Booked (newConnection (w.withConnector c) sock peerAddr) := by
  have hmade : (newConnection (w.withConnector c) sock peerAddr).made =
      w.made ++ [⟨sock, connName w peerAddr⟩] := List.filterMap_append
  have hdestroyed : (newConnection (w.withConnector c) sock peerAddr).destroyed = w.destroyed := by
    show (w.log ++ [_]).filterMap Event.destroyed? = w.destroyed
    rw [List.filterMap_append]
    exact List.append_nil _
  have hwaiting' : (newConnection (w.withConnector c) sock peerAddr).waiting = w.waiting :=
    withConnector_waiting w c
  refine ⟨fun e he => ?_, ?_, ?_⟩
  · rcases List.mem_append.mp he with he | he
    · exact h.expected e he
    · rw [List.mem_singleton.mp he]
      exact htcp
  · rw [hmade, hdestroyed, hwaiting', hwaiting]
    show _ = w.destroyed ++ w.waiting ++ (w.up ++ [_])
    rw [hup]
    rfl
  · rw [hmade, List.map_append, h.delivered]
    exact hsock.symm

theorem handleClose_booked (h : Booked w) (hdead : w.connector.dead = false)
    (htcp : w.tcpConnection = some conn) (hup : w.up = [conn]) (errno : Connector.Errno) :
    Booked (handleClose w conn errno) := by
  have hclosed : Booked (World.queueInLoop { w with
      up := []
      tcpConnection := none
      log := w.log ++ [.closed conn w.tcpConnection] } (.connectDestroyed conn)) := by
    have hnone (g : Event → Option Connection) (hg : g (.closed conn w.tcpConnection) = none) :
        (w.log ++ [Event.closed conn w.tcpConnection]).filterMap g = w.log.filterMap g := by
      rw [List.filterMap_append, List.filterMap_cons_none hg]
      exact List.append_nil _
    have hmade := hnone Event.connected? rfl
    have hdestroyed := hnone Event.destroyed? rfl
    refine ⟨fun e he => ?_, ?_, ?_⟩
    · rcases List.mem_append.mp he with he | he
      · exact h.expected e he
      · rw [List.mem_singleton.mp he]
        exact htcp
    · rw [waiting_push]
      refine hmade.trans (h.order.trans ?_)
      rw [hup, World.destroyed, World.destroyed]
      show _ = (w.log ++ [_]).filterMap Event.destroyed? ++ (w.waiting ++ [conn]) ++ []
      rw [hdestroyed, List.append_nil, List.append_assoc]
    · exact (congrArg (List.map Connection.sock) hmade).trans h.delivered
  simp only [handleClose, removeConnection, hup, List.erase_cons_head]
  split
  · exact hclosed.follow (restart_step hdead errno) (by simp)
  · exact hclosed

theorem step_booked {a : Action} {w' : World} (hb : Booked w) (h : Live w) (hcond : Disciplined w a)
    (hdead : w.connector.dead = false) (hsteps : Steps w a w') : Booked w' := by
  cases hsteps with
  | connect tid errno =>
      have hc : Connector.step w.connector (.start tid errno) =
          some (Connector.start w.connector tid errno) := by rw [Connector.step, hdead]; rfl
      have hsame : Booked { w with connect := true } := hb.of_same rfl rfl rfl rfl
      exact hsame.follow hc (by simp)
  | disconnect => exact hb.of_same rfl rfl rfl rfl
  | stop =>
      have hc : Connector.step w.connector .stop = some (Connector.stop w.connector) := by
        rw [Connector.step, hdead]
        rfl
      have hsame : Booked { w with connect := false } := hb.of_same rfl rfl rfl rfl
      exact hsame.follow hc (by simp)
  | enableRetry => exact hb.of_same rfl rfl rfl rfl
  | forceClose conn =>
      unfold forceClose
      split
      · exact hb.of_same rfl rfl ((waiting_push w _).trans (List.append_nil _)) rfl
      · exact hb
  | poll hturn hidle => exact hb.of_same rfl rfl rfl rfl
  | handleEvent revents i peerAddr c hturn hc =>
      have hclient : Connector.Action.OfClient (.handleEvent revents i) := trivial
      obtain ⟨-, htidy⟩ := Connector.step_tidy (fun _ => h.tidy) hclient (hcond _ rfl) hc
      have hsplit := Connector.delivered_drop (Connector.step_log hc)
      obtain ⟨hdown, ⟨hsocks, -⟩ | ⟨sock, hsocks, -⟩⟩ :=
        handleEvent_live h hturn hc (hcond _ rfl) htidy peerAddr
      · rw [hsocks, List.append_nil] at hsplit
        rw [hsocks]
        exact hb.of_same rfl rfl (withConnector_waiting w c) hsplit
      · rw [hsocks] at hsplit ⊢
        have htcp : w.tcpConnection = none := by
          have hone := h.inLoop.one
          rw [hdown] at hone
          exact Option.toList_eq_nil_iff.mp hone.symm
        refine newConnection_booked hb hdown htcp ?_ hsplit peerAddr
        have horder := hb.order
        rwa [hdown, List.append_nil] at horder
  | retryTimer i errno c hc => exact hb.follow hc (by simp)
  | hangUp conn errno hpolled hup =>
      obtain ⟨htcp, hone⟩ := h.inLoop.tcpConnection hup
      exact handleClose_booked hb hdead htcp hone errno
  | swapFunctors c hturn hc =>
      have hidle := h.inLoop.idle hturn
      refine hb.of_same rfl rfl ?_ (Connector.step_delivered (Connector.steps_of_step hc).2 (by simp))
      simp [World.waiting, World.queue, hidle]
  | connectorFunctor errno f fs c hfs hc =>
      have hpopped : Booked { w with functors := fs } := hb.of_same rfl rfl (waiting_pop hfs).symm rfl
      exact hpopped.follow hc (by simp)
  | forceCloseInLoop errno conn fs hfs hup =>
      obtain ⟨htcp, hone⟩ := h.inLoop.tcpConnection hup
      have hpopped : Booked { w with functors := fs } := hb.of_same rfl rfl (waiting_pop hfs).symm rfl
      exact handleClose_booked hpopped hdead htcp hone errno
  | forceCloseDown errno conn fs hfs hdown => exact hb.of_same rfl rfl (waiting_pop hfs).symm rfl
  | connectDestroyed errno conn fs hfs =>
      have hmade : ({ w with functors := fs }.record (.destroyed conn)).made = w.made :=
        List.filterMap_append.trans (List.append_nil _)
      have hdestroyed : ({ w with functors := fs }.record (.destroyed conn)).destroyed =
          w.destroyed ++ [conn] := List.filterMap_append
      have hwaiting : w.waiting =
          conn :: ({ w with functors := fs }.record (.destroyed conn)).waiting := waiting_pop hfs
      refine ⟨fun e he => ?_, ?_, hmade ▸ hb.delivered⟩
      · rcases List.mem_append.mp he with he | he
        · exact hb.expected e he
        · rw [List.mem_singleton.mp he]
          trivial
      · -- from the queue to the log
        rw [hmade, hb.order, hwaiting, hdestroyed, List.append_assoc w.destroyed [conn]]
        rfl

/-! ## Runs -/

structure Good (w : World) : Prop where
  booked : Booked w
  live : w.connector.dead = false → Live w

theorem newClient_good (name : List Char) : Good (newClient name) := by
  refine ⟨⟨fun _ he => ?_, rfl, rfl⟩, fun hlive => ⟨Connector.newConnector_tidy hlive, rfl, rfl, rfl,
    fun _ hup => ?_, fun _ hmem => ?_, nofun⟩⟩
  · cases he
  · cases hup
  · rcases hmem with hmem | hmem | hmem <;> cases hmem

theorem step_good {a : Action} {w' : World} (h : Good w) (hcond : Disciplined w a)
    (hstep : step w a = some w') : OneAttempt w a ∧ Good w' := by
  obtain ⟨hdead, hsteps⟩ := steps_of_step hstep
  obtain ⟨hone, hlive⟩ := step_live (h.live hdead) hcond hdead hsteps
  exact ⟨hone, step_booked h.booked (h.live hdead) hcond hdead hsteps, hlive⟩

/-- However often a disciplined client connects again by itself: a new attempt meets nothing of the
    one before, a connection is made when there is none, and the one that goes down is
    `m_tcpConnectionPtr`. -/
theorem one_connection (name : List Char) (actions : List Action) (w : World)
    (hrun : run step (newClient name) actions = some w)
    (hcond : Along step Disciplined (newClient name) actions) :
    Along step OneAttempt (newClient name) actions ∧ (∀ e ∈ w.log, e.Expected) ∧
      (w.connector.dead = false → w.up = w.tcpConnection.toList) := by
  have hgood : Good w :=
    run_invariant_along (fun _ _ _ h hcond hstep => (step_good h hcond hstep).2)
      (newClient_good name) hrun hcond
  refine ⟨?_, hgood.booked.expected, fun hlive => (hgood.live hlive).inLoop.one⟩
  exact along_of_along (I := Good) (fun _ _ _ h hcond hstep => step_good h hcond hstep)
    (newClient_good name) hrun hcond

/-- The client of another thread connects, is left by its peer, connects again by itself,
    and closes. -/
def twoConnections : List Action :=
  [.enableRetry, .connect 1 .zero, .poll, .swapFunctors, .runFunctor .EINPROGRESS,
    .poll, .handleEvent { epollout := true } {} (.inet 1 0 0 2 80), .swapFunctors, .runFunctor .zero,
    .poll, .hangUp ⟨0, ['c', ':', '1', '.', '0', '.', '0', '.', '2', ':', '8', '0', '#', '1']⟩
      .EINPROGRESS, .swapFunctors, .runFunctor .zero,
    .poll, .handleEvent { epollout := true } {} (.inet 1 0 0 2 80),
    .forceClose ⟨1, ['c', ':', '1', '.', '0', '.', '0', '.', '2', ':', '8', '0', '#', '2']⟩,
    .disconnect, .swapFunctors, .runFunctor .zero, .runFunctor .zero]

theorem exists_twoConnections :
    ∃ w, run step (newClient ['c']) twoConnections = some w ∧ w.connector.dead = false ∧
      w.tcpConnection = none ∧ w.up = [] ∧ w.destroyed.map Connection.sock = [0] ∧
      w.waiting.map Connection.sock = [1] := by
  have hrun : (run step (newClient ['c']) twoConnections).map (fun w => decide
      (w.connector.dead = false ∧ w.tcpConnection = none ∧ w.up = [] ∧
        w.destroyed.map Connection.sock = [0] ∧ w.waiting.map Connection.sock = [1])) =
      some true := by decide +kernel
  obtain ⟨w, hw, hend⟩ := Option.map_eq_some_iff.mp hrun
  exact ⟨w, hw, of_decide_eq_true hend⟩

theorem one_connection_twoConnections :
    ∃ w, run step (newClient ['c']) twoConnections = some w ∧ (∀ e ∈ w.log, e.Expected) ∧ w.up = [] := by
  obtain ⟨w, hw, hlive, htcp, -⟩ := exists_twoConnections
  obtain ⟨-, hexpected, hone⟩ := one_connection ['c'] twoConnections w hw (by decide +kernel)
  refine ⟨w, hw, hexpected, ?_⟩
  rw [hone hlive, htcp]
  rfl

/-- Every socket that the connector hands over becomes one connection, and at any time the
    connections are, in the order in which they were made, those that have been torn down,
    those whose `connectDestroyed` is queued, and the one that is up, if any.  As long as the
    process lives, no two are the same. -/
theorem torn_down_in_order (name : List Char) (actions : List Action) (w : World)
    (hrun : run step (newClient name) actions = some w)
    (hcond : Along step Disciplined (newClient name) actions) :
    w.made.map Connection.sock = Connector.delivered w.connector.log ∧
      w.made = w.destroyed ++ w.waiting ++ w.up ∧ (w.connector.dead = false → w.made.Nodup) := by
  have hgood : Good w :=
    run_invariant_along (fun _ _ _ h hcond hstep => (step_good h hcond hstep).2)
      (newClient_good name) hrun hcond
  refine ⟨hgood.booked.delivered, hgood.booked.order, fun hlive => ?_⟩
  have hsocks := Connector.delivered_nodup (hgood.live hlive).tidy.1.1.clean
  rw [← hgood.booked.delivered] at hsocks
  exact List.Pairwise.of_map Connection.sock (fun _ _ hne heq => hne (congrArg _ heq)) hsocks

theorem torn_down_in_order_twoConnections :
    ∃ w, run step (newClient ['c']) twoConnections = some w ∧ w.made.map Connection.sock = [0, 1] := by
  obtain ⟨w, hw, -, -, hup, hdestroyed, hwaiting⟩ := exists_twoConnections
  obtain ⟨-, horder, -⟩ := torn_down_in_order ['c'] twoConnections w hw (by decide +kernel)
  refine ⟨w, hw, ?_⟩
  rw [horder, hup, List.append_nil, List.map_append, hdestroyed, hwaiting]
  rfl

end TcpClient
end Youth.Net
