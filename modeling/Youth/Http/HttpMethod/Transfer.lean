/-
  Youth.Http.HttpMethod.Transfer

  The answer to a `GET` request for a file: `onRequest` of `youth/net/http/HttpServer.cpp`
  sends the head, and from then on each write-complete callback sends one piece of the
  file.

  The machine is the connection (`Youth.Net.TcpConnection.Basic`) with the context that
  keeps the file.  Its steps are those of the loop thread while the file goes out: writable
  events, in which the socket takes some bytes, and the functors.  Turns of the loop in
  which nothing happens are left out.  What the array of `readMaxSize` holds before the
  call number `k` is `stack k`.
-/

import Youth.Lib.Machine
import Youth.Http.HttpMethod.Basic
import Youth.Http.HttpServer.Basic
import Youth.Net.TcpConnection.Pipe

namespace Youth.Http

open Youth.Lib Youth.Net
open Youth.Core (File cString)

namespace Transfer

open HttpMethodBuilder

structure World where
  conn : TcpConnection.World
  context : HttpContext File
  /-- How often `readMaxSize` was called. -/
  calls : Nat := 0

/-- `onRequest` on a request that goes to `getFile`, and the `reset` behind it: the
    response, and where the transfer starts.  `r` is the result of the first write. -/
def onRequest (fs : FileSystem) (conn : TcpConnection.World) (c : HttpContext File)
    (r : WriteResult) : Option (HttpResponse × World) :=
  (getFile fs c { closeConnection := HttpServer.closeRequested c.request }).map
    fun (_, c, resp, callback) =>
      let conn := if callback then conn.setWriteCompleteCallback else conn
      let conn := TcpConnection.send conn loopThread (resp.appendToBuffer []) r
      let conn := if resp.closeConnection then TcpConnection.shutdown conn loopThread else conn
      (resp, { conn := conn, context := c.reset })

inductive Action
  /-- The socket is writable and takes up to `n` bytes. -/
  | handleWrite (n : Nat)
  | swapFunctors
  /-- The next functor; `r` is the result of its write. -/
  | runFunctor (r : WriteResult)
  deriving DecidableEq, Repr

def step (stack : Nat → Bytes) (w : World) : Action → Option World
  | .handleWrite n =>
    if w.conn.conn.channel.isWriting ∧ 0 < n then
      (TcpConnection.step w.conn (.handleEvent { epollout := true } { write := .ok n })).map
        fun conn => { w with conn := conn }
    else none
  | .swapFunctors =>
    if w.conn.pendingFunctors ≠ [] then
      (TcpConnection.step w.conn .swapFunctors).map fun conn => { w with conn := conn }
    else none
  | .runFunctor r =>
    if r.Survives ∧ w.conn.functors.head? = some .writeCompleteCallback then
      let (calls, context) := writeCompleteCallback w.context (stack w.calls) r
      (TcpConnection.step w.conn (.runFunctor r calls)).map
        fun conn => { conn := conn, context := context, calls := w.calls + 1 }
    else none

/-- The head and the file are out, and `SHUT_WR` came behind them. -/
def Delivered (head content : Bytes) (w : World) : Prop :=
  w.conn.written = head ++ content ∧ w.conn.shutWr = [(head ++ content).length]

/-- How many pieces a file of this length is read in. -/
def pieces (length : Nat) : Nat := (length - 1) / bufSize + 1

/-- The piece number `i` of a file. -/
def piece (content : Bytes) (i : Nat) : Bytes := (content.drop (i * bufSize)).take bufSize

/-- When the file is delivered: an answer that ends the connection has nothing to send
    behind its head; otherwise the file is without a zero, and in memory there is a zero
    behind each of its pieces. -/
def Whole (req : HttpRequest) (content : Bytes) (stack : Nat → Bytes) : Prop :=
  if HttpServer.closeRequested req then content = []
  else 0 ∉ content ∧ ∀ i < pieces content.length, (stack i).getD (piece content i).length 0 = 0

end Transfer
end Youth.Http
