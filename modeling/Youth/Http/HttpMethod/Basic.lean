/-
  Youth.Http.HttpMethod.Basic

  The file handlers of `HttpMethodBuilder` in `youth/net/http/HttpMethod.cc`: a `PUT` is
  stored, a `GET` is answered with a file, a `DELETE` removes a path.

  The file system is an argument (`FileSystem`), by the paths that the system calls see;
  `FileCall`s are the calls made on it.  The context of a request holds the open file.
  Left out: the registered methods and the log lines.
-/

import Youth.Core.File
import Youth.Http.HttpContext.Basic
import Youth.Http.HttpResponse
import Youth.Net.TcpConnection.Basic

namespace Youth.Http

open Youth.Lib
open Youth.Core (File cString)

structure FileSystem where
  /-- What the file holds, if it opens for reading. -/
  openRead : Bytes → Option Bytes
  /-- Whether the file opens for writing. -/
  openWrite : Bytes → Bool
  /-- How many entries `std::filesystem::remove_all` removes, unless it raises. -/
  removeAll : Bytes → Option Nat

inductive FileCall
  | openRead (path : Bytes)
  | openWrite (path : Bytes)
  | removeAll (path : Bytes)
  deriving DecidableEq, Repr

namespace HttpMethodBuilder

def bufSize : Nat := 64 * 1024

/-- `"." + req.path()`, as the system calls see it. -/
def filePath (req : HttpRequest) : Bytes := cString (ascii ['.'] ++ req.path)

/-- `filePtr->write` of what `req.readAll()` gives; the length becomes an `int`. -/
def writeBody (c : HttpContext File) (file : File) : HttpContext File :=
  let buf := c.request.readAll.1
  { c with request := c.request.readAll.2, context := some (file.write buf (Net.intOfSize buf.length)) }

/-- `putReadyRead`: the calls, the context, and whether the connection is shut down (the
    response that it makes of a failure is not sent). -/
def putReadyRead (fs : FileSystem) (c : HttpContext File) :
    List FileCall × HttpContext File × Bool :=
  if c.request.method ≠ .put then ([], c, false)
  else
    match c.context with
    | some file => ([], writeBody c file, false)
    | none =>
      let path := filePath c.request
      if fs.openWrite path then
        ([.openWrite path], writeBody c { openMode := .writeOnly, content := [] }, false)
      else ([.openWrite path], c, true)

/-- The exceptions that leave a file handler. -/
inductive HandlerError
  /-- Of `std::any_cast`. -/
  | badAnyCast
  /-- Of `std::filesystem::remove_all`. -/
  | filesystemError
  deriving DecidableEq, Repr

/-- `putFinish`: the context and the response; `none` if the request is left to the next
    handler.  Without a file in the context `std::any_cast` raises. -/
def putFinish (c : HttpContext File) (resp : HttpResponse) :
    Option (Except HandlerError (HttpContext File × HttpResponse)) :=
  if c.request.method ≠ .put then none
  else
    match c.context with
    | none => some (.error .badAnyCast)
    | some file =>
      let written := writeBody c file
      some (.ok ({ written with context := written.context.map File.close },
        ((((resp.setStatusCode .k200Ok).setStatusMessage (ascii "OK".toList)).setContentType
          (ascii "text/plain".toList)).addHeader (ascii "Server".toList)
            (ascii "youth".toList)).setCloseConnection true))

/-- `getFile`: the calls, the context, the response, and whether `writeCompleteCallback` is
    set on the connection; `none` if the request is left to the next handler. -/
def getFile (fs : FileSystem) (c : HttpContext File) (resp : HttpResponse) :
    Option (List FileCall × HttpContext File × HttpResponse × Bool) :=
  if c.request.method ≠ .get then none
  else
    let path := filePath c.request
    match fs.openRead path with
    | none =>
      some ([.openRead path], c,
        ((resp.setStatusCode .k400BadRequest).addHeader (ascii "Server".toList)
          (ascii "youth".toList)).setCloseConnection true, false)
    | some content =>
      some ([.openRead path], c.setContext (some { openMode := .readOnly, content := content }),
        ((((resp.setContentLength content.length).setStatusCode .k200Ok).setStatusMessage
          (ascii "OK".toList)).setContentType (ascii "text/plain".toList)).addHeader
            (ascii "Server".toList) (ascii "youth".toList), true)

/-- `writeCompleteCallback`: what it calls on the connection, and the context.  It finds
    `stack` in its array, and `r` is the result of its write.  Without a file in the context
    `std::any_cast` raises. -/
def writeCompleteCallback (c : HttpContext File) (stack : Bytes) (r : Net.WriteResult) :
    List Net.TcpConnection.Call × HttpContext File :=
  match c.context with
  | none => ([], c)
  | some file =>
    let (buffer, file) := file.readMaxSize stack bufSize
    let (atEnd, file) := file.atEnd
    (.send buffer r :: if atEnd then [.shutdown] else [], c.setContext (some file))

/-- `deletePath`: the calls, and the response unless `remove_all` raises; `none` if the request
    is left to `defaultCall`. -/
def deletePath (fs : FileSystem) (c : HttpContext File) (resp : HttpResponse) :
    Option (List FileCall × Except HandlerError HttpResponse) :=
  if c.request.method ≠ .delete then none
  else
    let path := filePath c.request
    some ([.removeAll path],
      match fs.removeAll path with
      | none => .error .filesystemError
      | some removed =>
        let resp :=
          if removed ≠ 0 then
            (resp.setStatusCode .k200Ok).setStatusMessage (ascii "OK".toList)
          else resp.setStatusCode .k400BadRequest
        .ok (((resp.setContentType (ascii "text/plain".toList)).addHeader (ascii "Server".toList)
          (ascii "youth".toList)).setCloseConnection true))

/-- The calls of the three handlers on a request. -/
def fileCalls (fs : FileSystem) (c : HttpContext File) (resp : HttpResponse) : List FileCall :=
  (putReadyRead fs c).1 ++ ((getFile fs c resp).elim [] (·.1)) ++
    ((deletePath fs c resp).elim [] (·.1))

end HttpMethodBuilder
end Youth.Http
