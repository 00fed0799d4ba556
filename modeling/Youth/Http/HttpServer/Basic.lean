/-
  Youth.Http.HttpServer.Basic

  One connection of the server of `youth/net/http/HttpServer.cpp`.

  `onMessage` is called after every read, with all that has not been read from
  the input buffer.  The callbacks are user code (or the method builder's); what
  they can do to the context is drain the body and store a per-request context,
  and an `Effect` says which of this they do.  What they answer is left out, but
  for the `400` of a request that is refused.
-/

import Youth.Http.HttpContext.Head

namespace Youth.Http

open Youth.Lib
open Youth.Core (DateTime)

variable {κ : Type}

/-- What a callback does to the context it is given. -/
structure Effect (κ : Type) where
  /-- It calls `readAll`. -/
  drains : Bool := false
  /-- What it calls `setContext` with, if it does. -/
  context : Option (Option κ) := none

namespace Effect

def drain (e : Effect κ) (c : HttpContext κ) : HttpContext κ :=
  if e.drains then { c with request := c.request.readAll.2 } else c

def apply (e : Effect κ) (c : HttpContext κ) : HttpContext κ :=
  match e.context with
  | some context => (e.drain c).setContext context
  | none => e.drain c

/-! ## What a callback does not change -/

variable (e : Effect κ) (c : HttpContext κ)

@[simp] theorem apply_state : (e.apply c).state = c.state := by
  simp only [Effect.apply, Effect.drain, HttpContext.setContext]
  split <;> split <;> rfl

@[simp] theorem apply_contentLength :
    (e.apply c).request.contentLength = c.request.contentLength := by
  simp only [Effect.apply, Effect.drain, HttpContext.setContext]
  split <;> split <;> rfl

/-- Draining moves the length of the body to `m_readSize`. -/
theorem apply_sizes :
    ((e.apply c).request.body.length + (e.apply c).request.readSize) % 2 ^ 64 =
      (c.request.body.length + c.request.readSize) % 2 ^ 64 := by
  simp only [Effect.apply, Effect.drain, HttpContext.setContext]
  split <;> split <;> simp [HttpRequest.readAll, Nat.add_comm]

end Effect

/-- A read, and what the callbacks do when it makes `onMessage` call them. -/
structure Message (κ : Type) extends HttpContext.Read where
  readyRead : Effect κ := {}
  request : Effect κ := {}

namespace HttpServer

/-- The answer ends the connection: `close` in `onRequest`. -/
def closeRequested (req : HttpRequest) : Bool :=
  let connection := req.getHeader (ascii "Connection".toList)
  connection = ascii "close".toList ∨
    (req.version = .http10 ∧ connection ≠ ascii "Keep-Alive".toList)

/-- What `onMessage` does besides parsing. -/
inductive Event
  /-- An exception of `parseRequest` leaves `onMessage`. -/
  | raised (e : StollError)
  /-- The `400` is sent, and the connection shut down. -/
  | badRequest
  | onReadyRead
  | onRequest
  deriving DecidableEq, Repr

/-- `onMessage` on the context and the input buffer of a connection. -/
def onMessage (c : HttpContext κ) (buf : Bytes) (m : Message κ) :
    Option (List Event × HttpContext κ × Bytes) :=
  (c.parseRequest buf m.receiveTime).map fun p =>
    match p.1 with
    | e :: _ => ([.raised e], p.2.context, p.2.buf)
    | [] =>
      let refused := if p.2.ok then [] else [.badRequest]
      if p.2.context.gotBody then
        (refused ++ [.onReadyRead], m.readyRead.apply p.2.context, p.2.buf)
      else if p.2.context.gotAll then
        (refused ++ [.onReadyRead, .onRequest],
          (m.request.apply (m.readyRead.apply p.2.context)).reset, p.2.buf)
      else (refused, p.2.context, p.2.buf)

/-- A connection: its `HttpContext`, its input buffer, and what has happened so far. -/
structure World (κ : Type) where
  context : HttpContext κ := {}
  inputBuffer : Bytes := []
  log : List Event := []
  received : Nat := 0

/-- `handleRead`: the bytes go to the input buffer, and `onMessage` is called. -/
def step (w : World κ) (m : Message κ) : Option (World κ) :=
  (onMessage w.context (w.inputBuffer ++ m.data) m).map fun r =>
    { context := r.2.1
      inputBuffer := r.2.2
      log := w.log ++ r.1
      received := w.received + m.data.length }

/-- How many requests have been dispatched. -/
def World.dispatched (w : World κ) : Nat := w.log.count .onRequest

/-! ## What one call does, by where the parser stands -/

variable {c : HttpContext κ} {buf : Bytes} {m : Message κ} {p : HttpContext.Parser κ}

theorem onMessage_waiting (hp : c.parseRequest buf m.receiveTime = some ([], p))
    (hwait : HttpContext.Waiting [] p) : onMessage c buf m = some ([], p.context, p.buf) := by
  obtain ⟨-, hok, hstate⟩ := hwait
  have hbody : p.context.gotBody = false := by
    rcases hstate with h | h <;> simp [HttpContext.gotBody, h]
  have hall : p.context.gotAll = false := by
    rcases hstate with h | h <;> simp [HttpContext.gotAll, h]
  simp [onMessage, hp, hok, hbody, hall]

theorem onMessage_gotBody (hp : c.parseRequest buf m.receiveTime = some ([], p))
    (hok : p.ok = true) (hstate : p.context.state = .expectBody) :
    onMessage c buf m = some ([.onReadyRead], m.readyRead.apply p.context, p.buf) := by
  have hbody : p.context.gotBody = true := by simp [HttpContext.gotBody, hstate]
  simp [onMessage, hp, hok, hbody]

theorem onMessage_gotAll (hp : c.parseRequest buf m.receiveTime = some ([], p))
    (hok : p.ok = true) (hstate : p.context.state = .gotAll) :
    onMessage c buf m = some ([.onReadyRead, .onRequest],
      (m.request.apply (m.readyRead.apply p.context)).reset, p.buf) := by
  have hbody : p.context.gotBody = false := by simp [HttpContext.gotBody, hstate]
  have hall : p.context.gotAll = true := by simp [HttpContext.gotAll, hstate]
  simp [onMessage, hp, hok, hbody, hall]

end HttpServer
end Youth.Http
