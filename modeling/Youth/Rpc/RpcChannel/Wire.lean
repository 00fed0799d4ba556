/-
  Youth.Rpc.RpcChannel.Wire

  Two RPC channels joined by two streams of bytes.

  `Youth.Rpc.RpcChannel.Basic` has queues of messages between its ends.  Here a message
  that is sent becomes the bytes that `m_codec.send` hands to the connection, and the
  connection delivers as many of them at a time as it likes: `onMessage` of the codec works
  on the input `Buffer` turn by turn, and between its turns the other threads go on.  The
  queues of `ends` are where a step leaves the messages it sends (`flush` empties them).

  The invariant is that the bytes that are read but not taken, with those on their way,
  are the frames of whole messages (`Stands`).  These messages are the queues of the
  abstract machine, which therefore takes each step as well (`step_follows`).  A message
  that is longer than the codec accepts would end it, so the results are about runs in
  which those that are sent fit.
-/

import Youth.Rpc.ProtobufCodecLite.RoundTrip
import Youth.Rpc.RpcChannel.Answered
import Youth.Rpc.RpcChannel.Proto

namespace Youth.Rpc.RpcChannel

open Youth.Lib Youth.Net World ProtobufCodecLite

/-- The ends, and what is between them. -/
structure Wire where
  ends : World
  /-- Bytes on their way. -/
  toServer : List UInt8 := []
  toClient : List UInt8 := []
  /-- The input buffers of the two connections. -/
  serverBuffer : Buffer := Buffer.new Buffer.kInitialSize
  clientBuffer : Buffer := Buffer.new Buffer.kInitialSize
  /-- The loop thread is inside `onMessage`. -/
  serverReads : Bool := false
  clientReads : Bool := false
  /-- The calls of `m_errorCallback`. -/
  errors : List ErrorCode := []
  /-- Ghost: the messages given to `m_codec.send`. -/
  sent : List RpcMessage := []

namespace Wire

/-- Two channels on a new connection. -/
def connect (id serverId : Int64) (services : Bytes → Option Service) : Wire where
  ends := RpcChannel.connect id serverId services

inductive Action
  /-- A step at one of the ends that takes no message. -/
  | endStep (a : RpcChannel.Action)
  /-- `handleRead`: some bytes arrive, and `onMessage` is called. -/
  | serverRead (n : Nat)
  | clientRead (n : Nat)
  /-- A turn of the loop of `onMessage`. -/
  | serverTurn
  | clientTurn

/-- The steps that take no message: `CallMethod`, a closure, the end of a response. -/
def takesNone : RpcChannel.Action → Bool
  | .fetchId .. | .register _ | .send _ | .runClosure .. | .finish => true
  | .deliverToServer | .deliverToClient | .arrive _ => false

theorem delivers_of_takesNone {a : RpcChannel.Action} (ha : takesNone a = true) : Delivers a := by
  cases a <;> trivial

variable (codec : ProtobufCodecLite RpcMessage)

/-- `m_codec.send` of the messages that a step has left in the queues. -/
def flush (w : Wire) : Wire :=
  { w with
    ends := { w.ends with toServer := [], toClient := [] }
    toServer := w.toServer ++ codec.encoded w.ends.toServer
    toClient := w.toClient ++ codec.encoded w.ends.toClient
    sent := w.sent ++ w.ends.toServer ++ w.ends.toClient }

/-- The callbacks of the codec at the server. -/
def onServerEvent (w : Wire) : CodecEvent RpcMessage → Wire
  | .message m => flush codec { w with ends := w.ends.onServerMessage m }
  | .error code => { w with errors := w.errors ++ [code] }
  | .raw _ => w

def onClientEvent (w : Wire) : CodecEvent RpcMessage → Wire
  | .message m => flush codec { w with ends := w.ends.onClientMessage m }
  | .error code => { w with errors := w.errors ++ [code] }
  | .raw _ => w

/-- What a turn of the server's loop does.  The codec takes the frame off the buffer when
    the callback returns; nothing looks at the buffer in between. -/
def onServerTurn (w : Wire) : Turn (CodecEvent RpcMessage) Buffer → Wire
  | .next events buf => events.foldl (onServerEvent codec) { w with serverBuffer := buf }
  | .stop events buf =>
    events.foldl (onServerEvent codec) { w with serverBuffer := buf, serverReads := false }

def onClientTurn (w : Wire) : Turn (CodecEvent RpcMessage) Buffer → Wire
  | .next events buf => events.foldl (onClientEvent codec) { w with clientBuffer := buf }
  | .stop events buf =>
    events.foldl (onClientEvent codec) { w with clientBuffer := buf, clientReads := false }

def serverTurn (w : Wire) : Wire := onServerTurn codec w (codec.onMessageTurn w.serverBuffer)

def clientTurn (w : Wire) : Wire := onClientTurn codec w (codec.onMessageTurn w.clientBuffer)

def step (w : Wire) : Action → Option Wire
  | .endStep a =>
    if takesNone a then (RpcChannel.step w.ends a).map fun ends => flush codec { w with ends := ends }
    else none
  | .serverRead n =>
    if w.serverReads = false ∧ 0 < n ∧ n ≤ w.toServer.length then
      some { w with
        toServer := w.toServer.drop n
        serverBuffer := (w.serverBuffer.append (w.toServer.take n)).val
        serverReads := true }
    else none
  | .clientRead n =>
    if w.clientReads = false ∧ 0 < n ∧ n ≤ w.toClient.length then
      some { w with
        toClient := w.toClient.drop n
        clientBuffer := (w.clientBuffer.append (w.toClient.take n)).val
        clientReads := true }
    else none
  | .serverTurn => if w.serverReads then some (serverTurn codec w) else none
  -- the callback of the message before has to return first
  | .clientTurn => if w.clientReads ∧ w.ends.inHand = none then some (clientTurn codec w) else none

/-! ## What stands in a stream -/

variable {codec}

/-- The bytes taken from the connection and those on their way are the frames of `ms`; and
    a loop that has come to its end has left less than one frame. -/
structure Stands (codec : ProtobufCodecLite RpcMessage) (buf : Buffer) (reads : Bool)
    (bytes : List UInt8) (ms : List RpcMessage) : Prop where
  inv : buf.Inv
  frames : buf.readable ++ bytes = (ms.map codec.frame).flatten
  fits : ∀ m ∈ ms, codec.Fits m
  short : reads = false → ∀ m ∈ ms.head?, buf.readableBytes < (codec.frame m).length

theorem Stands.new (size : Nat) : Stands codec (Buffer.new size) false [] [] where
  inv := Buffer.new_inv size
  frames := by rw [Buffer.readable_new]; rfl
  fits := by simp
  short := by simp

section Stands

variable {buf : Buffer} {reads : Bool} {bytes : List UInt8} {m : RpcMessage} {ms : List RpcMessage}

/-- Messages that are sent stand behind the others. -/
theorem Stands.send (h : Stands codec buf reads bytes ms) (hlaw : codec.pb.Lawful)
    {sent : List RpcMessage} (hsent : ∀ m ∈ sent, codec.Fits m) :
    Stands codec buf reads (bytes ++ codec.encoded sent) (ms ++ sent) where
  inv := h.inv
  frames := by
    rw [encoded_eq hlaw hsent, ← List.append_assoc, h.frames, List.map_append,
      List.flatten_append]
  fits m hm := (List.mem_append.mp hm).elim (h.fits m) (hsent m)
  short hreads m hm := by
    rcases ms with _ | ⟨first, ms⟩
    · -- nothing was there before, so nothing is in the buffer
      have hnil : buf.readable = [] := (List.append_eq_nil_iff.mp h.frames).1
      rw [← Buffer.length_readable h.inv, hnil, length_frame, List.length_nil]
      omega
    · exact h.short hreads m hm

theorem Stands.readable_nil (h : Stands codec buf reads bytes []) : buf.readable = [] :=
  (List.append_eq_nil_iff.mp h.frames).1

/-- More bytes are read. -/
theorem Stands.read (h : Stands codec buf reads bytes ms) (n : Nat) :
    Stands codec (buf.append (bytes.take n)).val true (bytes.drop n) ms where
  inv := (Buffer.append_yields h.inv _).inv
  frames := by
    rw [(Buffer.append_yields h.inv _).readable, List.append_assoc, List.take_append_drop, h.frames]
  fits := h.fits
  short := nofun

/-- A turn of the loop takes the first message, or ends the loop. -/
theorem Stands.turn (h : Stands codec buf reads bytes ms) (hlaw : codec.pb.Lawful)
    (hraw : codec.rawCb = none) (htag : codec.tag.length + 8 < 2 ^ 31) :
    (∃ m rest buf', ms = m :: rest ∧ codec.onMessageTurn buf = .next [.message m] buf' ∧
      Stands codec buf' true bytes rest) ∨
    (codec.onMessageTurn buf = .stop [] buf ∧ Stands codec buf false bytes ms) := by
  rcases ms with _ | ⟨m, rest⟩
  · right
    have hlen := Buffer.length_readable h.inv
    rw [h.readable_nil] at hlen
    refine ⟨onMessageTurn_short htag ?_, ⟨h.inv, h.frames, h.fits, by simp⟩⟩
    rw [← hlen]
    simp
  · have hframes := h.frames
    rw [List.map_cons, List.flatten_cons] at hframes
    have hfit := h.fits m List.mem_cons_self
    by_cases hlt : buf.readableBytes < (codec.frame m).length
    · right
      refine ⟨onMessageTurn_incomplete htag hfit h.inv hframes hlt, ⟨h.inv, h.frames, h.fits, ?_⟩⟩
      rintro - m' hm'
      cases hm'
      exact hlt
    · -- the whole frame is there
      left
      have hlen := Buffer.length_readable h.inv
      have hle : (codec.frame m).length ≤ buf.readable.length := by omega
      obtain ⟨more, hmore⟩ := prefix_of_append hframes hle
      have hretrieve := Buffer.retrieve_yields h.inv (show (codec.frame m).length ≤ buf.readableBytes by omega)
      refine ⟨m, rest, _, rfl, onMessageTurn_complete hraw htag hlaw hfit h.inv hmore,
        ⟨hretrieve.inv, ?_, fun m' hm' => h.fits m' (List.mem_cons_of_mem _ hm'), nofun⟩⟩
      rw [hmore, List.append_assoc] at hframes
      rw [hretrieve.readable, hmore, List.drop_left]
      exact List.append_cancel_left hframes

end Stands

/-! ## The queues of messages -/

/-- The ends, without what is in between. -/
def emptied (t : World) : World := { t with toServer := [], toClient := [] }

/-- What a step sends stands behind what was sent before. -/
def behind (t e : World) : World :=
  { e with toServer := t.toServer ++ e.toServer, toClient := t.toClient ++ e.toClient }

/-- A step that takes no message does not look at the queues. -/
theorem step_behind {a : RpcChannel.Action} (ha : takesNone a = true) (t : World) :
    RpcChannel.step t a = (RpcChannel.step (emptied t) a).map (behind t) := by
  cases a with
  | fetchId service method request response done =>
      rw [RpcChannel.step, RpcChannel.step]
      by_cases hfew : t.calls.length + 1 < 2 ^ 64
      · rw [if_pos hfew, if_pos (show (emptied t).calls.length + 1 < 2 ^ 64 from hfew)]
        simp [World.fetchId, emptied, behind]
      · rw [if_neg hfew, if_neg (show ¬(emptied t).calls.length + 1 < 2 ^ 64 from hfew)]
        rfl
  | register i =>
      simp only [RpcChannel.step, emptied]
      rcases t.calls[i]? with _ | c
      · rfl
      · by_cases hstage : t.stage i = .allocated
        · simp [hstage, World.register, behind]
        · simp [hstage]
  | send i =>
      simp only [RpcChannel.step, emptied]
      rcases t.calls[i]? with _ | c
      · rfl
      · by_cases hstage : t.stage i = .registered
        · simp [hstage, World.send, behind]
        · simp [hstage]
  | runClosure k response =>
      simp only [RpcChannel.step, emptied]
      rcases t.closures k with _ | id
      · rfl
      · simp [World.runClosure, behind]
  | finish =>
      simp only [RpcChannel.step, emptied]
      rcases t.inHand with _ | ⟨out, m⟩
      · rfl
      · simp [World.finish, behind]
  | deliverToServer | deliverToClient | arrive => cases ha

theorem onServerMessage_behind (t : World) (m : RpcMessage) :
    t.onServerMessage m = behind t ((emptied t).onServerMessage m) := by
  unfold onServerMessage emptied
  dsimp only
  split <;> simp [behind]

theorem onClientMessage_behind (t : World) (m : RpcMessage) :
    t.onClientMessage m = behind t ((emptied t).onClientMessage m) := by
  unfold onClientMessage emptied
  dsimp only
  split <;> simp [behind]

theorem step_deliverToClient {t : World} {m : RpcMessage} {rest : List RpcMessage}
    (hfree : t.inHand = none) (hqueue : t.toClient = m :: rest) :
    RpcChannel.step t .deliverToClient = some ({ t with toClient := rest }.onClientMessage m) := by
  cases t
  cases hfree
  cases hqueue
  rfl

/-! ## The abstract machine follows -/

/-- The machine with queues of messages is in the same state. -/
structure Follows (codec : ProtobufCodecLite RpcMessage) (w : Wire) (t : World) : Prop where
  server : Stands codec w.serverBuffer w.serverReads w.toServer t.toServer
  client : Stands codec w.clientBuffer w.clientReads w.toClient t.toClient
  ends : w.ends = emptied t
  errors : w.errors = []

theorem connect_follows (id serverId : Int64) (services : Bytes → Option Service) :
    Follows codec (connect id serverId services) (RpcChannel.connect id serverId services) :=
  ⟨.new _, .new _, rfl, rfl⟩

section Follows

variable {w : Wire} {t e : World}

/-- What an end has sent stands behind the rest, on the wire as in the queues. -/
theorem flush_follows (hlaw : codec.pb.Lawful)
    (hserver : Stands codec w.serverBuffer w.serverReads w.toServer t.toServer)
    (hclient : Stands codec w.clientBuffer w.clientReads w.toClient t.toClient)
    (herrors : w.errors = []) (hfits : ∀ m ∈ (flush codec w).sent, codec.Fits m) :
    Follows codec (flush codec w) (behind t w.ends) where
  server := hserver.send hlaw fun m hm =>
    hfits m (List.mem_append_left _ (List.mem_append_right _ hm))
  client := hclient.send hlaw fun m hm => hfits m (List.mem_append_right _ hm)
  ends := rfl
  errors := herrors

variable (hlaw : codec.pb.Lawful) (hraw : codec.rawCb = none) (htag : codec.tag.length + 8 < 2 ^ 31)

include hlaw hraw htag

/-- A turn of the server's loop: its channel takes the first message, or nothing happens. -/
theorem serverTurn_follows (h : Follows codec w t) (hreads : w.serverReads = true)
    (hfits : ∀ m ∈ (serverTurn codec w).sent, codec.Fits m) :
    ∃ acts t', (∀ a ∈ acts, Delivers a) ∧ run RpcChannel.step t acts = some t' ∧
      Follows codec (serverTurn codec w) t' := by
  rcases h.server.turn hlaw hraw htag with ⟨m, rest, buf', hqueue, hturn, hstands⟩ | ⟨hturn, hstands⟩
  · have heq : serverTurn codec w =
        flush codec { w with serverBuffer := buf', ends := w.ends.onServerMessage m } := by
      rw [serverTurn, hturn]
      rfl
    rw [heq] at hfits ⊢
    rw [← hreads] at hstands
    let w' : Wire := { w with serverBuffer := buf', ends := w.ends.onServerMessage m }
    let t' : World := { t with toServer := rest }
    have hfollows := flush_follows (w := w') (t := t') hlaw hstands h.client h.errors hfits
    have hstep : RpcChannel.step t .deliverToServer = some (behind t' (w.ends.onServerMessage m)) := by
      rw [RpcChannel.step, hqueue, h.ends]
      exact congrArg some (onServerMessage_behind t' m)
    exact ⟨[.deliverToServer], _, by simp [Delivers], run_one hstep, hfollows⟩
  · refine ⟨[], t, List.forall_mem_nil _, rfl, ?_⟩
    rw [serverTurn, hturn]
    exact ⟨hstands, h.client, h.ends, h.errors⟩

theorem clientTurn_follows (h : Follows codec w t) (hreads : w.clientReads = true)
    (hfree : w.ends.inHand = none) (hfits : ∀ m ∈ (clientTurn codec w).sent, codec.Fits m) :
    ∃ acts t', (∀ a ∈ acts, Delivers a) ∧ run RpcChannel.step t acts = some t' ∧
      Follows codec (clientTurn codec w) t' := by
  rcases h.client.turn hlaw hraw htag with ⟨m, rest, buf', hqueue, hturn, hstands⟩ | ⟨hturn, hstands⟩
  · have heq : clientTurn codec w =
        flush codec { w with clientBuffer := buf', ends := w.ends.onClientMessage m } := by
      rw [clientTurn, hturn]
      rfl
    rw [heq] at hfits ⊢
    rw [← hreads] at hstands
    let w' : Wire := { w with clientBuffer := buf', ends := w.ends.onClientMessage m }
    let t' : World := { t with toClient := rest }
    have hfollows := flush_follows (w := w') (t := t') hlaw h.server hstands h.errors hfits
    have hfree' : t.inHand = none := by
      rw [h.ends] at hfree
      exact hfree
    have hstep : RpcChannel.step t .deliverToClient = some (behind t' (w.ends.onClientMessage m)) := by
      rw [step_deliverToClient hfree' hqueue, h.ends]
      exact congrArg some (onClientMessage_behind t' m)
    exact ⟨[.deliverToClient], _, by simp [Delivers], run_one hstep, hfollows⟩
  · refine ⟨[], t, List.forall_mem_nil _, rfl, ?_⟩
    rw [clientTurn, hturn]
    exact ⟨h.server, hstands, h.ends, h.errors⟩

/-- Each step on the wire is a run of the machine with queues. -/
theorem step_follows {w' : Wire} {a : Action} (h : Follows codec w t)
    (hstep : step codec w a = some w') (hfits : ∀ m ∈ w'.sent, codec.Fits m) :
    ∃ acts t', (∀ a ∈ acts, Delivers a) ∧ run RpcChannel.step t acts = some t' ∧
      Follows codec w' t' := by
  cases a with
  | endStep a =>
      simp only [step] at hstep
      split at hstep
      case isFalse => cases hstep
      case isTrue ha =>
        rw [h.ends] at hstep
        obtain ⟨e, he, rfl⟩ := Option.map_eq_some_iff.mp hstep
        refine ⟨[a], behind t e, ?_, run_one ?_, ?_⟩
        · exact List.forall_mem_singleton.mpr (delivers_of_takesNone ha)
        · rw [step_behind ha, he, Option.map_some]
        · exact flush_follows hlaw h.server h.client h.errors hfits
  | serverRead n =>
      simp only [step] at hstep
      split at hstep
      case isFalse => cases hstep
      case isTrue =>
        cases hstep
        exact ⟨[], t, List.forall_mem_nil _, rfl, h.server.read n, h.client, h.ends, h.errors⟩
  | clientRead n =>
      simp only [step] at hstep
      split at hstep
      case isFalse => cases hstep
      case isTrue =>
        cases hstep
        exact ⟨[], t, List.forall_mem_nil _, rfl, h.server, h.client.read n, h.ends, h.errors⟩
  | serverTurn =>
      simp only [step] at hstep
      split at hstep
      case isFalse => cases hstep
      case isTrue hreads =>
        obtain rfl := Option.some.inj hstep
        exact serverTurn_follows hlaw hraw htag h hreads hfits
  | clientTurn =>
      simp only [step] at hstep
      split at hstep
      case isFalse => cases hstep
      case isTrue hguard =>
        obtain rfl := Option.some.inj hstep
        exact clientTurn_follows hlaw hraw htag h hguard.1 hguard.2 hfits

end Follows

/-! ## Every run -/

/-- Messages that have been sent stay so. -/
theorem foldl_sent {f : Wire → CodecEvent RpcMessage → Wire} (hf : ∀ w e, w.sent ⊆ (f w e).sent)
    (events : List (CodecEvent RpcMessage)) (w : Wire) : w.sent ⊆ (events.foldl f w).sent := by
  induction events generalizing w with
  | nil => exact List.Subset.refl _
  | cons e events ih => exact List.Subset.trans (hf w e) (ih _)

theorem flush_sent (w : Wire) : w.sent ⊆ (flush codec w).sent := fun _ hm =>
  List.mem_append_left _ (List.mem_append_left _ hm)

theorem onServerTurn_sent (w : Wire) (turn : Turn (CodecEvent RpcMessage) Buffer) :
    w.sent ⊆ (onServerTurn codec w turn).sent := by
  have hevent : ∀ w e, w.sent ⊆ (onServerEvent codec w e).sent := by
    intro w e
    cases e with
    | message m => exact flush_sent { w with ends := w.ends.onServerMessage m }
    | error code => exact List.Subset.refl _
    | raw frame => exact List.Subset.refl _
  cases turn with
  | next events buf => exact foldl_sent hevent events { w with serverBuffer := buf }
  | stop events buf =>
      exact foldl_sent hevent events { w with serverBuffer := buf, serverReads := false }

theorem onClientTurn_sent (w : Wire) (turn : Turn (CodecEvent RpcMessage) Buffer) :
    w.sent ⊆ (onClientTurn codec w turn).sent := by
  have hevent : ∀ w e, w.sent ⊆ (onClientEvent codec w e).sent := by
    intro w e
    cases e with
    | message m => exact flush_sent { w with ends := w.ends.onClientMessage m }
    | error code => exact List.Subset.refl _
    | raw frame => exact List.Subset.refl _
  cases turn with
  | next events buf => exact foldl_sent hevent events { w with clientBuffer := buf }
  | stop events buf =>
      exact foldl_sent hevent events { w with clientBuffer := buf, clientReads := false }

theorem step_sent {w w' : Wire} {a : Action} (hstep : step codec w a = some w') :
    w.sent ⊆ w'.sent := by
  cases a with
  | endStep a =>
      simp only [step] at hstep
      split at hstep
      case isFalse => cases hstep
      case isTrue =>
        obtain ⟨e, -, rfl⟩ := Option.map_eq_some_iff.mp hstep
        exact flush_sent { w with ends := e }
  | serverRead n | clientRead n =>
      simp only [step] at hstep
      split at hstep
      case isFalse => cases hstep
      case isTrue =>
        cases hstep
        exact List.Subset.refl _
  | serverTurn =>
      simp only [step] at hstep
      split at hstep
      case isFalse => cases hstep
      case isTrue =>
        obtain rfl := Option.some.inj hstep
        exact onServerTurn_sent w _
  | clientTurn =>
      simp only [step] at hstep
      split at hstep
      case isFalse => cases hstep
      case isTrue =>
        obtain rfl := Option.some.inj hstep
        exact onClientTurn_sent w _

section Runs

variable {id serverId : Int64} {services : Bytes → Option Service} {acts : List Action} {w : Wire}

theorem run_follows (hlaw : codec.pb.Lawful) (hraw : codec.rawCb = none)
    (htag : codec.tag.length + 8 < 2 ^ 31)
    (hrun : run (step codec) (connect id serverId services) acts = some w)
    (hfits : ∀ m ∈ w.sent, codec.Fits m) :
    ∃ macts t, (∀ a ∈ macts, Delivers a) ∧
      run RpcChannel.step (RpcChannel.connect id serverId services) macts = some t ∧
      Follows codec w t := by
  refine run_invariant (I := fun w => (∀ m ∈ w.sent, codec.Fits m) → ∃ macts t,
      (∀ a ∈ macts, Delivers a) ∧
      run RpcChannel.step (RpcChannel.connect id serverId services) macts = some t ∧
      Follows codec w t) ?_ ?_ hrun hfits
  · intro w a w' ih hstep hfits
    obtain ⟨macts, t, hmacts, ht, hfollows⟩ := ih fun m hm => hfits m (step_sent hstep hm)
    obtain ⟨more, t', hmore, ht', hfollows'⟩ := step_follows hlaw hraw htag hfollows hstep hfits
    refine ⟨macts ++ more, t', ?_, run_append_eq_some.mpr ⟨t, ht, ht'⟩, hfollows'⟩
    exact fun b hb => (List.mem_append.mp hb).elim (hmacts b) (hmore b)
  · intro _
    exact ⟨[], _, List.forall_mem_nil _, rfl, connect_follows id serverId services⟩

end Runs

/-- RPC over bytes is RPC over queues of messages: in every run in which the messages fit
    into frames, however the bytes are cut and the steps interleaved, the codecs report no
    error, the bytes that are under way are the frames of the queues, and so a closure is
    run once at most, and for its own answer. -/
theorem wire_refines (codec : ProtobufCodecLite RpcMessage) (hlaw : codec.pb.Lawful)
    (hraw : codec.rawCb = none) (htag : codec.tag.length + 8 < 2 ^ 31) (id serverId : Int64)
    (services : Bytes → Option Service) (acts : List Action) (w : Wire)
    (hrun : run (step codec) (connect id serverId services) acts = some w)
    (hfits : ∀ m ∈ w.sent, codec.Fits m) :
    w.errors = [] ∧ (∀ i, w.ends.log.countP (ranBy i) ≤ 1) ∧
      (∀ i b, .ran i (some b) ∈ w.ends.log → ProducedFor w.ends i b) ∧
      ∃ macts t, (∀ a ∈ macts, Delivers a) ∧
        run RpcChannel.step (RpcChannel.connect id serverId services) macts = some t ∧
        Follows codec w t := by
  obtain ⟨macts, t, hmacts, ht, hfollows⟩ := run_follows hlaw hraw htag hrun hfits
  have hinv : Inv id t := run_invariant step_inv (connect_inv id serverId services) ht
  refine ⟨hfollows.errors, ?_, ?_, macts, t, hmacts, ht, hfollows⟩
  · rw [hfollows.ends]
    exact hinv.looked.once
  · rw [hfollows.ends]
    exact hinv.looked.own

/-- Nothing is under way, and every loop has come to its end. -/
structure Quiet (w : Wire) : Prop where
  toServer : w.toServer = []
  toClient : w.toClient = []
  serverReads : w.serverReads = false
  clientReads : w.clientReads = false
  inHand : w.ends.inHand = none

/-- A loop does not end on a whole frame. -/
theorem Stands.queue_nil {buf : Buffer} {ms : List RpcMessage} (h : Stands codec buf false [] ms) :
    ms = [] := by
  rcases ms with _ | ⟨m, ms⟩
  · rfl
  · have hshort := h.short rfl m rfl
    have hframes := h.frames
    rw [List.append_nil, List.map_cons, List.flatten_cons] at hframes
    rw [← Buffer.length_readable h.inv, hframes, List.length_append] at hshort
    omega

theorem Follows.quiet {w : Wire} {t : World} (h : Follows codec w t) (hquiet : Quiet w) :
    RpcChannel.Quiet t where
  toServer := by
    have hstands := h.server
    rw [hquiet.serverReads, hquiet.toServer] at hstands
    exact hstands.queue_nil
  toClient := by
    have hstands := h.client
    rw [hquiet.clientReads, hquiet.toClient] at hstands
    exact hstands.queue_nil
  inHand := by
    have hhand := hquiet.inHand
    rw [h.ends] at hhand
    exact hhand

/-- No call is lost when every message sent fits into a frame: when the bytes are taken and the
    loops have ended, a call that has been sent, and that no service is still at work on, has
    had its closure run, exactly once, for what was produced for its request (or without a
    response, after an error). -/
theorem no_call_lost (codec : ProtobufCodecLite RpcMessage) (hlaw : codec.pb.Lawful)
    (hraw : codec.rawCb = none) (htag : codec.tag.length + 8 < 2 ^ 31) (id serverId : Int64)
    (services : Bytes → Option Service) (acts : List Action) (w : Wire)
    (hrun : run (step codec) (connect id serverId services) acts = some w)
    (hfits : ∀ m ∈ w.sent, codec.Fits m) (hquiet : Quiet w) (i : Nat) (c : Call)
    (hc : w.ends.calls[i]? = some c) (hsent : w.ends.stage i = .sent)
    (hresponse : c.response = true) (hdone : c.done = true)
    (hworked : ∀ k : Nat, w.ends.requests[k]? = some c.message → w.ends.closures k = none) :
    w.ends.log.countP (ranBy i) = 1 ∧
      ∃ k : Nat, w.ends.requests[k]? = some c.message ∧
        .ran i (w.ends.produced k) ∈ w.ends.log := by
  obtain ⟨macts, t, hmacts, ht, hfollows⟩ := run_follows hlaw hraw htag hrun hfits
  obtain ⟨hinv, haccounted⟩ := run_accounted hmacts
    ⟨connect_inv id serverId services, connect_accounted id serverId services⟩ ht
  rw [hfollows.ends] at hc hsent hworked ⊢
  exact ran_of_quiet (w := t) hinv haccounted (hfollows.quiet hquiet) hc hsent hresponse hdone hworked

/-- The codec of `RpcCodec`. -/
def rpcCodec : ProtobufCodecLite RpcMessage where
  tag := [82, 80, 67, 48]
  pb := rpcProtobuf
  adler32 := adler32FromOne

/-- Two calls, the first one cut on its way; the answers come in one piece, in the other
    order. -/
def wireActions : List Action :=
  [.endStep (.fetchId [1] [1] [10] true true), .endStep (.fetchId [1] [2] [20] true true),
   .endStep (.register 0), .endStep (.register 1), .endStep (.send 0), .endStep (.send 1),
   .serverRead 10, .serverTurn, .serverRead 45, .serverTurn, .serverTurn, .serverTurn,
   .endStep (.runClosure 1 [200]), .endStep (.runClosure 0 [100]),
   .clientRead 43, .clientTurn, .endStep .finish, .clientTurn, .endStep .finish, .clientTurn]

/-- What the run of `wireActions` ends with. -/
abbrev WireEnd (w : Wire) : Prop :=
  (∀ m ∈ w.sent, ((4 : Nat) + (RpcMessage.serialize m).length + 4 : Int) ≤ kMaxMessageLen) ∧
  (w.toServer = [] ∧ w.toClient = [] ∧ w.serverReads = false ∧ w.clientReads = false ∧
    w.ends.inHand = none) ∧
  w.ends.calls[0]? = some ⟨-1, [1], [1], [10], true, true⟩ ∧ w.ends.stage 0 = .sent ∧
  (∀ k < w.ends.requests.length, w.ends.closures k = none) ∧
  .ran 0 (some [100]) ∈ w.ends.log

theorem exists_wireEnd :
    ∃ w, run (step rpcCodec) (connect (-1) 0 anyService) wireActions = some w ∧ WireEnd w := by
  have hrun : (run (step rpcCodec) (connect (-1) 0 anyService) wireActions).map
      (fun w => decide (WireEnd w)) = some true := by decide +kernel
  obtain ⟨w, hw, hend⟩ := Option.map_eq_some_iff.mp hrun
  exact ⟨w, hw, of_decide_eq_true hend⟩

theorem wire_refines_wireActions :
    ∃ w, run (step rpcCodec) (connect (-1) 0 anyService) wireActions = some w ∧
      .ran 0 (some [100]) ∈ w.ends.log ∧ w.errors = [] ∧ ProducedFor w.ends 0 [100] := by
  obtain ⟨w, hw, hfits, -, -, -, -, hran⟩ := exists_wireEnd
  obtain ⟨herrors, -, hown, -⟩ :=
    wire_refines rpcCodec rpcProtobuf_lawful rfl (by decide) (-1) 0 anyService wireActions w hw hfits
  exact ⟨w, hw, hran, herrors, hown 0 [100] hran⟩

theorem no_call_lost_wireActions :
    ∃ w, run (step rpcCodec) (connect (-1) 0 anyService) wireActions = some w ∧
      w.ends.log.countP (ranBy 0) = 1 := by
  obtain ⟨w, hw, hfits, ⟨hs, hc, hsr, hcr, hhand⟩, hcall, hstage, hheld, -⟩ := exists_wireEnd
  obtain ⟨honce, -⟩ := no_call_lost rpcCodec rpcProtobuf_lawful rfl (by decide) (-1) 0 anyService
    wireActions w hw hfits ⟨hs, hc, hsr, hcr, hhand⟩ 0 _ hcall hstage rfl rfl fun k hk =>
      hheld k (List.getElem?_eq_some_iff.mp hk).1
  exact ⟨w, hw, honce⟩

end Wire
end Youth.Rpc.RpcChannel
