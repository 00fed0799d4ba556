/-
  Youth.Rpc.RpcChannel.Basic

  The RPC channels of `youth/net/rpc/RpcChannel.cc` and `rpc.proto`, one at each
  end of a connection.

  The connection delivers messages in order (`ProtobufCodecLite` and the stream
  under it do), so each direction is a queue of messages.  `CallMethod` is cut
  where other threads can come in between: it takes an id, registers the call
  under the mutex and sends the request.  A response is cut after the locked part
  of `onRpcMessage`; parsing it and running the closure is a step of its own.
  On the server, the closure of a request is run by the service at any later time.

  A pointer to a response or closure is the number of the call it was passed to.
  `requests`, `produced`, `answers` and `log` are ghosts.  Strings and serialised
  messages are lists of bytes.  Left out: the log lines, the destructor, and the
  `RpcController`, which the source ignores.
-/

import Mathlib.Algebra.Group.Nat.Defs
import Mathlib.Logic.Function.Basic
import Youth.Lib.Machine

namespace Youth.Rpc

open Youth.Lib

abbrev Bytes := List UInt8

/-! ## `rpc.proto` -/

namespace RpcMessage

inductive MessageType
  | UNKNOWN
  | REQUEST
  | RESPONSE
  | ERROR
  deriving DecidableEq, Repr

inductive ErrorCode
  | NO_ERROR
  | WRONG_PROTO
  | NO_SERVICE
  | NO_METHOD
  | INVALID_REQUEST
  | INVALID_RESPONSE
  | TIMEOUT
  deriving DecidableEq, Repr

end RpcMessage

/-- A message; an `optional` field that is not set reads as its default. -/
structure RpcMessage where
  type : RpcMessage.MessageType := .UNKNOWN
  id : UInt64 := 0
  service : Option Bytes := none
  method : Option Bytes := none
  request : Option Bytes := none
  response : Option Bytes := none
  error : Option RpcMessage.ErrorCode := none
  deriving DecidableEq, Repr

/-! ## A channel -/

/-- A method of a service: whether its request class parses these bytes. -/
structure Method where
  parseRequest : Bytes → Bool

/-- A service, by its descriptor. -/
structure Service where
  findMethodByName : Bytes → Option Method

/-- `OutstandingCall`: whose pointers they are, and which of them are not null. -/
structure OutstandingCall where
  call : Nat
  response : Bool
  done : Bool
  deriving DecidableEq, Repr

structure RpcChannel where
  id : Int64
  outstandings : Int64 → Option OutstandingCall := fun _ => none
  services : Option (Bytes → Option Service) := none

/-- What `onRpcMessage` goes on to do when the lock is released. -/
inductive Reaction
  /-- A response, with the call it found and erased. -/
  | response (out : Option OutstandingCall)
  /-- The service is called, with a closure for `doneCallback` and this id. -/
  | call (id : Int64)
  /-- An error is sent. -/
  | reply (message : RpcMessage)
  | ignore
  deriving DecidableEq, Repr

namespace RpcChannel

/-- The error of a request, `NO_ERROR` when the service is called. -/
def requestError (ch : RpcChannel) (message : RpcMessage) : RpcMessage.ErrorCode :=
  match ch.services with
  | none => .NO_SERVICE
  | some find =>
    match find (message.service.getD []) with
    | none => .NO_SERVICE
    | some service =>
      match service.findMethodByName (message.method.getD []) with
      | none => .NO_METHOD
      | some method =>
        if method.parseRequest (message.request.getD []) then .NO_ERROR else .INVALID_REQUEST

/-- The message that is sent for a request with an error. -/
def errorResponse (message : RpcMessage) (error : RpcMessage.ErrorCode) : RpcMessage :=
  { type := .RESPONSE, id := message.id, error := some error }

def onRpcMessage (ch : RpcChannel) (message : RpcMessage) : Reaction × RpcChannel :=
  match message.type with
  | .RESPONSE =>
    let id := message.id.toInt64
    (.response (ch.outstandings id),
      { ch with outstandings := Function.update ch.outstandings id none })
  | .REQUEST =>
    match ch.requestError message with
    | .NO_ERROR => (.call message.id.toInt64, ch)
    | error => (.reply (errorResponse message error), ch)
  | _ => (.ignore, ch)

/-- The message that `doneCallback` sends for the bytes of a response. -/
def doneCallback (response : Bytes) (id : Int64) : RpcMessage :=
  { type := .RESPONSE, id := id.toUInt64, response := some response }

end RpcChannel

/-! ## Two channels -/

/-- The arguments of a `CallMethod`, and the id it has taken. -/
structure Call where
  id : Int64
  service : Bytes
  method : Bytes
  request : Bytes
  response : Bool
  done : Bool
  deriving DecidableEq, Repr

def Call.message (c : Call) : RpcMessage :=
  { type := .REQUEST, id := c.id.toUInt64, service := some c.service, method := some c.method
    request := some c.request }

/-- How far a `CallMethod` has come. -/
inductive Stage
  | idle
  | allocated
  | registered
  | sent
  deriving DecidableEq, Repr

/-- What happens at the client. -/
inductive Event
  | registered (call : Nat)
  | arrived (message : RpcMessage)
  /-- The closure is run, after the response object has parsed these bytes, if any. -/
  | ran (call : Nat) (parsed : Option Bytes)
  deriving DecidableEq, Repr

namespace RpcChannel

/-- A client, a server and the connection between them.  The log has the newest event
    first. -/
structure World where
  client : RpcChannel
  server : RpcChannel
  calls : List Call := []
  stage : Nat → Stage := fun _ => .idle
  /-- The call that the client's loop thread has erased and not yet answered. -/
  inHand : Option (OutstandingCall × RpcMessage) := none
  toServer : List RpcMessage := []
  toClient : List RpcMessage := []
  /-- The requests the server has received, in order. -/
  requests : List RpcMessage := []
  /-- The closures that services still hold, by the number of the request. -/
  closures : Nat → Option Int64 := fun _ => none
  /-- What the service serialised for a request. -/
  produced : Nat → Option Bytes := fun _ => none
  /-- What the server has sent for a request. -/
  answers : Nat → List RpcMessage := fun _ => []
  log : List Event := []

/-- Both ends of a new connection; the client has no services. -/
def connect (id serverId : Int64) (services : Bytes → Option Service) : World where
  client := { id := id }
  server := { id := serverId, services := some services }

inductive Action
  /-- `CallMethod`: `m_id.fetch_add(1)`. -/
  | fetchId (service method request : Bytes) (response done : Bool)
  /-- `CallMethod`: the locked assignment to `m_outstandings`. -/
  | register (call : Nat)
  /-- `CallMethod`: `m_codec.send`. -/
  | send (call : Nat)
  /-- The server takes the next message. -/
  | deliverToServer
  /-- A service runs the closure of a request, with its response serialised. -/
  | runClosure (request : Nat) (response : Bytes)
  /-- The client takes the next message. -/
  | deliverToClient
  /-- A response arrives again, or with an id that the client does not know. -/
  | arrive (message : RpcMessage)
  /-- The client parses the response and runs the closure of the call it was for. -/
  | finish
  deriving DecidableEq, Repr

namespace World

def fetchId (w : World) (service method request : Bytes) (response done : Bool) : World :=
  { w with
    client := { w.client with id := w.client.id + 1 }
    calls := w.calls ++ [⟨w.client.id, service, method, request, response, done⟩]
    stage := Function.update w.stage w.calls.length .allocated }

def register (w : World) (i : Nat) (c : Call) : World :=
  { w with
    client := { w.client with
      outstandings := Function.update w.client.outstandings c.id (some ⟨i, c.response, c.done⟩) }
    stage := Function.update w.stage i .registered
    log := .registered i :: w.log }

def send (w : World) (i : Nat) (c : Call) : World :=
  { w with toServer := w.toServer ++ [c.message], stage := Function.update w.stage i .sent }

/-- `onRpcMessage` at the client. -/
def onClientMessage (w : World) (message : RpcMessage) : World :=
  let r := w.client.onRpcMessage message
  match r.1 with
  | .response out =>
    { w with
      client := r.2, inHand := out.map fun out => (out, message)
      log := .arrived message :: w.log }
  | .reply error => { w with client := r.2, toServer := w.toServer ++ [error] }
  -- the client has no services, so none is called
  | .call _ => { w with client := r.2 }
  | .ignore => { w with client := r.2 }

/-- `onRpcMessage` at the server.  It makes no calls, so a response finds none. -/
def onServerMessage (w : World) (message : RpcMessage) : World :=
  let r := w.server.onRpcMessage message
  let k := w.requests.length
  match r.1 with
  | .response _ => { w with server := r.2 }
  | .reply error =>
    { w with
      server := r.2, requests := w.requests ++ [message]
      answers := Function.update w.answers k (w.answers k ++ [error])
      toClient := w.toClient ++ [error] }
  | .call id =>
    { w with
      server := r.2, requests := w.requests ++ [message]
      closures := Function.update w.closures k (some id) }
  | .ignore => { w with server := r.2 }

/-- The service runs the closure, which deletes itself. -/
def runClosure (w : World) (k : Nat) (id : Int64) (response : Bytes) : World :=
  { w with
    closures := Function.update w.closures k none
    produced := Function.update w.produced k (some response)
    answers := Function.update w.answers k (w.answers k ++ [doneCallback response id])
    toClient := w.toClient ++ [doneCallback response id] }

/-- The unlocked part of `onRpcMessage` for a response. -/
def finish (w : World) (out : OutstandingCall) (message : RpcMessage) : World :=
  { w with
    inHand := none
    log := if out.response ∧ out.done then .ran out.call message.response :: w.log else w.log }

/-- A response that the server has sent before. -/
def Sent (w : World) (message : RpcMessage) : Prop :=
  ∃ k < w.requests.length, message ∈ w.answers k

instance (w : World) (message : RpcMessage) : Decidable (w.Sent message) :=
  inferInstanceAs (Decidable (∃ k < w.requests.length, message ∈ w.answers k))

end World

open World

def step (w : World) : Action → Option World
  | .fetchId service method request response done =>
    if w.calls.length + 1 < 2 ^ 64 then
      some (w.fetchId service method request response done)
    else none
  | .register i =>
    match w.calls[i]? with
    | some c => if w.stage i = .allocated then some (w.register i c) else none
    | none => none
  | .send i =>
    match w.calls[i]? with
    | some c => if w.stage i = .registered then some (w.send i c) else none
    | none => none
  | .deliverToServer =>
    match w.toServer with
    | message :: rest => some ({ w with toServer := rest }.onServerMessage message)
    | [] => none
  | .runClosure k response =>
    match w.closures k with
    | some id => some (w.runClosure k id response)
    | none => none
  | .deliverToClient =>
    match w.inHand, w.toClient with
    | none, message :: rest => some ({ w with toClient := rest }.onClientMessage message)
    | _, _ => none
  | .arrive message =>
    if w.inHand = none ∧ message.type = .RESPONSE ∧
        (w.Sent message ∨ w.client.outstandings message.id.toInt64 = none) then
      some (w.onClientMessage message)
    else none
  | .finish =>
    match w.inHand with
    | some (out, message) => some (w.finish out message)
    | none => none

end RpcChannel
end Youth.Rpc
