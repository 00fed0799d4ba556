/-
  Youth.Net.TcpClient.InLoop

  The connector and the connections of a client in the queue of their loop.

  `restart()` makes a new attempt while the loop may still have a queued `resetChannel` of
  the attempt before, which would destroy the new channel.  It does not come to that: a
  connection goes down in a later turn of the loop than it was made in, or by a functor
  that was queued behind the reset.  `Held` says so of a connection, and each way in which
  the loop moves keeps it.
-/

import Youth.Net.Connector.Handover
import Youth.Net.TcpClient.Basic

namespace Youth.Net
namespace TcpClient

open Youth.Lib

/-- The functors that wait in the loop. -/
def World.queue (w : World) : List Functor := w.functors ++ w.pendingFunctors

/-- A connection that is up.  Until the reset of its attempt has run, the loop neither asks
    for its events nor comes to a functor that closes it. -/
structure Held (w : World) (conn : Connection) : Prop where
  state : w.connector.state = .kConnected
  order : w.queue.Pairwise fun f g => f = .forceCloseInLoop conn → g ≠ .connector .resetChannel
  polled : conn ∈ w.polled → .connector .resetChannel ∉ w.queue
  swapped : w.handling = false → .connector .resetChannel ∉ w.pendingFunctors

/-- The connector and the connections in the loop. -/
structure InLoop (w : World) : Prop where
  functors : w.connector.functors = w.functors.filterMap Functor.connector?
  pendingFunctors : w.connector.pendingFunctors = w.pendingFunctors.filterMap Functor.connector?
  one : w.up = w.tcpConnection.toList
  held : ∀ conn ∈ w.up, Held w conn
  known : ∀ conn, conn ∈ w.up ∨ conn ∈ w.polled ∨ .forceCloseInLoop conn ∈ w.queue →
    Connector.Released w.connector.log conn.sock
  idle : w.handling = true → w.functors = []

variable {w : World} {c : Connector.World} {conn : Connection}

/-! ## Frames -/

/-- What the connector and the queue do not see. -/
theorem Held.of_same {w' : World} (h : Held w conn)
    (e : w' = { w with
      retry := w'.retry
      connect := w'.connect
      nextConnId := w'.nextConnId
      tcpConnection := w'.tcpConnection
      up := w'.up
      log := w'.log }) : Held w' conn := by
  rw [e]
  exact ⟨h.state, h.order, h.polled, h.swapped⟩

theorem InLoop.of_same {w' : World} (h : InLoop w)
    (e : w' = { w with
      retry := w'.retry
      connect := w'.connect
      nextConnId := w'.nextConnId
      log := w'.log }) : InLoop w' := by
  rw [e]
  exact ⟨h.functors, h.pendingFunctors, h.one, fun conn hup => (h.held conn hup).of_same rfl,
    h.known, h.idle⟩

theorem withConnector_eq {fs : List Connector.Functor}
    (h : c.pendingFunctors = w.connector.pendingFunctors ++ fs) :
    w.withConnector c =
      { w with
        connector := c, pendingFunctors := w.pendingFunctors ++ fs.map .connector } := by
  rw [World.withConnector, h, List.drop_left]

theorem withConnector_same (h : c.pendingFunctors = w.connector.pendingFunctors) :
    w.withConnector c = { w with connector := c } := by
  rw [withConnector_eq (h.trans (List.append_nil _).symm), List.map_nil, List.append_nil]

@[simp] theorem filterMap_connector (fs : List Connector.Functor) :
    (fs.map Functor.connector).filterMap Functor.connector? = fs := by
  rw [List.filterMap_map]
  exact List.filterMap_some

theorem forceCloseInLoop_not_mem (fs : List Connector.Functor) :
    .forceCloseInLoop conn ∉ fs.map Functor.connector := by
  intro hmem
  obtain ⟨f, -, hf⟩ := List.mem_map.mp hmem
  cases hf

/-- The connector's functors are in the queue of the loop. -/
theorem InLoop.mem_queue (h : InLoop w) {f : Connector.Functor} (hmem : f ∈ w.connector.queue) :
    .connector f ∈ w.queue := by
  rw [Connector.World.queue, h.functors, h.pendingFunctors, ← List.filterMap_append] at hmem
  obtain ⟨g, hg, heq⟩ := List.mem_filterMap.mp hmem
  cases g with
  | connector g =>
      cases heq
      exact hg
  | forceCloseInLoop | connectDestroyed => cases heq

/-! ## The loop moves -/

/-- A connection is up only while the connector is through. -/
theorem InLoop.down_of_state (h : InLoop w) (hstate : w.connector.state ≠ .kConnected) :
    w.up = [] := by
  rcases hup : w.up with _ | ⟨conn, rest⟩
  · rfl
  · have hmem : conn ∈ w.up := by rw [hup]; exact List.mem_cons_self
    exact absurd (h.held conn hmem).state hstate

/-- The connector moves, while no connection is up. -/
theorem InLoop.follow (h : InLoop w) (hdown : w.up = []) (hpush : Connector.Pushes w.connector c)
    (hlog : w.connector.log <+: c.log) : InLoop (w.withConnector c) := by
  obtain ⟨hfunctors, fs, hpending⟩ := hpush
  rw [withConnector_eq hpending.symm]
  refine ⟨hfunctors.trans h.functors, ?_, h.one, ?_, ?_, h.idle⟩
  · rw [← hpending, h.pendingFunctors, List.filterMap_append, filterMap_connector]
  · intro conn hup
    rw [hdown] at hup
    cases hup
  · intro conn hmem
    refine (h.known conn (hmem.imp_right (Or.imp_right fun hqueue => ?_))).mono hlog
    rcases List.mem_append.mp hqueue with hqueue | hqueue
    · exact List.mem_append_left _ hqueue
    · rcases List.mem_append.mp hqueue with hqueue | hqueue
      · exact List.mem_append_right _ hqueue
      · exact absurd hqueue (forceCloseInLoop_not_mem fs)

/-- A functor that is no reset is pushed. -/
theorem InLoop.push (h : InLoop w) {f : Functor} (hreset : f ≠ .connector .resetChannel)
    (hclose : ∀ conn, f = .forceCloseInLoop conn → conn ∈ w.up)
    (hstate : c.state = w.connector.state) (hlog : c.log = w.connector.log)
    (hfunctors : c.functors = w.connector.functors)
    (hpending : c.pendingFunctors = w.connector.pendingFunctors ++ f.connector?.toList) :
    InLoop { w with connector := c, pendingFunctors := w.pendingFunctors ++ [f] } := by
  have hqueue : { w with connector := c, pendingFunctors := w.pendingFunctors ++ [f] }.queue =
      w.queue ++ [f] := (List.append_assoc _ _ _).symm
  have hnot {fs : List Functor} (hfs : .connector .resetChannel ∉ fs) :
      .connector .resetChannel ∉ fs ++ [f] := by
    rw [List.mem_append, List.mem_singleton]
    exact not_or.mpr ⟨hfs, hreset.symm⟩
  refine ⟨hfunctors.trans h.functors, ?_, h.one, ?_, ?_, h.idle⟩
  · rw [hpending, h.pendingFunctors, List.filterMap_append]
    cases hf : f.connector? <;> simp [hf]
  · intro conn hup
    obtain ⟨hconnected, horder, hpolled, hswapped⟩ := h.held conn hup
    refine ⟨hstate.trans hconnected, ?_, ?_, fun hturn => hnot (hswapped hturn)⟩
    · rw [hqueue, List.pairwise_append]
      refine ⟨horder, List.pairwise_singleton _ _, fun g _ g' hg' _ => ?_⟩
      rw [List.mem_singleton.mp hg']
      exact hreset
    · rw [hqueue]
      exact fun hmem => hnot (hpolled hmem)
  · rw [hqueue]
    intro conn hmem
    show Connector.Released c.log conn.sock
    rw [hlog]
    rcases hmem with hmem | hmem | hmem
    · exact h.known conn (.inl hmem)
    · exact h.known conn (.inr (.inl hmem))
    · rcases List.mem_append.mp hmem with hmem | hmem
      · exact h.known conn (.inr (.inr hmem))
      · exact h.known conn (.inl (hclose conn (List.mem_singleton.mp hmem).symm))

/-- The head of the batch is taken; the connector has taken it, too, if it is its own. -/
theorem InLoop.pop (h : InLoop w) {f : Functor} {fs : List Functor} (hfs : w.functors = f :: fs)
    (hstate : c.state = w.connector.state) (hlog : c.log = w.connector.log)
    (hfunctors : w.connector.functors = f.connector?.toList ++ c.functors)
    (hpending : c.pendingFunctors = w.connector.pendingFunctors) :
    InLoop { w with connector := c, functors := fs } := by
  have hqueue : w.queue = f :: { w with connector := c, functors := fs }.queue := by
    rw [World.queue, hfs]
    rfl
  refine ⟨?_, hpending.trans h.pendingFunctors, h.one, ?_, ?_, ?_⟩
  · have hsplit := hfunctors.symm.trans h.functors
    rw [hfs] at hsplit
    cases hf : f.connector? with
    | none => simpa [hf] using hsplit
    | some g => simpa [hf] using hsplit
  · intro conn hup
    obtain ⟨hconnected, horder, hpolled, hswapped⟩ := h.held conn hup
    rw [hqueue] at horder hpolled
    exact ⟨hstate.trans hconnected, horder.of_cons,
      fun hmem hreset => hpolled hmem (List.mem_cons_of_mem _ hreset), hswapped⟩
  · intro conn hmem
    show Connector.Released c.log conn.sock
    rw [hlog]
    refine h.known conn (hmem.imp_right (Or.imp_right fun hclose => ?_))
    rw [hqueue]
    exact List.mem_cons_of_mem _ hclose
  · intro hturn
    rw [h.idle hturn] at hfs
    cases hfs

/-- A new poll asks for the events of the connections that are up. -/
theorem InLoop.poll (h : InLoop w) (hturn : w.handling = false) (hidle : w.functors = []) :
    InLoop { w with handling := true, polled := w.up } := by
  refine ⟨h.functors, h.pendingFunctors, h.one, fun conn hup => ?_, fun conn hmem => ?_,
    fun _ => hidle⟩
  · obtain ⟨hconnected, horder, -, hswapped⟩ := h.held conn hup
    refine ⟨hconnected, horder, fun _ => ?_, nofun⟩
    show .connector .resetChannel ∉ w.functors ++ w.pendingFunctors
    rw [hidle]
    exact hswapped hturn
  · rcases hmem with hmem | hmem | hmem
    · exact h.known conn (.inl hmem)
    · exact h.known conn (.inl hmem)
    · exact h.known conn (.inr (.inr hmem))

theorem InLoop.swap (h : InLoop w) (hturn : w.handling = true)
    (hstate : c.state = w.connector.state) (hlog : c.log = w.connector.log)
    (hfunctors : c.functors = w.connector.pendingFunctors) (hpending : c.pendingFunctors = []) :
    InLoop { w with
      connector := c, handling := false, functors := w.pendingFunctors, pendingFunctors := [] } := by
  have hqueue : { w with
      connector := c
      handling := false
      functors := w.pendingFunctors
      pendingFunctors := [] }.queue = w.queue := by
    simp [World.queue, h.idle hturn]
  refine ⟨hfunctors.trans h.pendingFunctors, hpending, h.one, fun conn hup => ?_, ?_, nofun⟩
  · obtain ⟨hconnected, horder, hpolled, -⟩ := h.held conn hup
    exact ⟨hstate.trans hconnected, hqueue ▸ horder, hqueue ▸ hpolled, fun _ => List.not_mem_nil⟩
  · rw [hqueue]
    intro conn hmem
    show Connector.Released c.log conn.sock
    rw [hlog]
    exact h.known conn hmem

/-! ## A connection comes up -/

/-- The socket is one that nothing in the loop knows yet. -/
theorem newConnection_inLoop (h : InLoop w) (hdown : w.up = []) (hturn : w.handling = true)
    (hstate : w.connector.state = .kConnected) {sock : Nat}
    (hnew : ∀ conn, conn ∈ w.polled ∨ .forceCloseInLoop conn ∈ w.queue → conn.sock ≠ sock)
    (hsock : Connector.Released w.connector.log sock) (peerAddr : HostAddress) :
    InLoop (newConnection w sock peerAddr) := by
  have hup : (newConnection w sock peerAddr).up = [⟨sock, connName w peerAddr⟩] := by
    simp [newConnection, World.record, hdown]
  refine ⟨h.functors, h.pendingFunctors, hup, ?_, ?_, h.idle⟩
  · intro conn hmem
    rw [hup, List.mem_singleton] at hmem
    subst hmem
    refine ⟨hstate, ?_, fun hpolled => absurd rfl (hnew _ (.inl hpolled)), fun hnot => ?_⟩
    · -- no functor that closes it is in the queue
      refine List.pairwise_of_forall_mem_list fun f hf g _ heq => ?_
      rw [heq] at hf
      exact absurd rfl (hnew _ (.inr hf))
    · rw [show w.handling = false from hnot] at hturn
      cases hturn
  · intro conn hmem
    rcases hmem with hmem | hmem
    · rw [hup, List.mem_singleton] at hmem
      rw [hmem]
      exact hsock
    · exact h.known conn (.inr hmem)

end TcpClient
end Youth.Net
