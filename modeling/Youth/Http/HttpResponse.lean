/-
  Youth.Http.HttpResponse

  The response of `youth/net/http/HttpResponse.h` and `HttpResponse.cpp`.

  The header map is its list of entries in the order of the map, that is, of the keys.  The
  buffer that `appendToBuffer` writes to is the list of its readable bytes.
-/

import Youth.Lib.Printf
import Youth.Http.HttpRequest

namespace Youth.Http

open Youth.Lib

inductive HttpStatusCode
  | kUnknown
  | k200Ok
  | k301MovedPermanently
  | k400BadRequest
  | k404NotFound
  deriving DecidableEq, Repr

def HttpStatusCode.toInt : HttpStatusCode → Int
  | .kUnknown => 0
  | .k200Ok => 200
  | .k301MovedPermanently => 301
  | .k400BadRequest => 400
  | .k404NotFound => 404

structure HttpResponse where
  headers : List (Bytes × Bytes) := []
  statusCode : HttpStatusCode := .kUnknown
  statusMessage : Bytes := []
  closeConnection : Bool
  body : Bytes := []
  contentLength : Int := -1
  deriving DecidableEq

namespace HttpResponse

/-- `map[key] = value` on the entries of a map. -/
def assign (key value : Bytes) : List (Bytes × Bytes) → List (Bytes × Bytes)
  | [] => [(key, value)]
  | (k, v) :: rest =>
    if key < k then (key, value) :: (k, v) :: rest
    else if key = k then (k, value) :: rest
    else (k, v) :: assign key value rest

def setStatusCode (r : HttpResponse) (code : HttpStatusCode) : HttpResponse :=
  { r with statusCode := code }

def setStatusMessage (r : HttpResponse) (message : Bytes) : HttpResponse :=
  { r with statusMessage := message }

def setCloseConnection (r : HttpResponse) (on : Bool) : HttpResponse :=
  { r with closeConnection := on }

def addHeader (r : HttpResponse) (key value : Bytes) : HttpResponse :=
  { r with headers := assign key value r.headers }

def setContentType (r : HttpResponse) (contentType : Bytes) : HttpResponse :=
  r.addHeader (ascii "Content-Type".toList) contentType

def setBody (r : HttpResponse) (body : Bytes) : HttpResponse := { r with body := body }

def setContentLength (r : HttpResponse) (length : Int) : HttpResponse :=
  { r with contentLength := length }

/-- The status line. -/
def statusLine (r : HttpResponse) : Bytes :=
  ascii (snprintf 64 ("HTTP/1.1 ".toList ++ formatInt r.statusCode.toInt ++ [' '])) ++
    r.statusMessage ++ crlf

/-- The lines on the connection.  Under a given content length its line is formatted and
    not appended. -/
def connectionLines (r : HttpResponse) : Bytes :=
  if r.closeConnection then ascii "Connection: close\r\n".toList
  else if r.contentLength > 0 then ascii "Connection: Keep-Alive\r\n".toList
  else
    ascii (snprintf 64 ("Content-Length: ".toList ++ formatNat r.body.length ++ "\r\n".toList)) ++
      ascii "Connection: Keep-Alive\r\n".toList

def headerLine (header : Bytes × Bytes) : Bytes := header.1 ++ ascii ": ".toList ++ header.2 ++ crlf

/-- What `appendToBuffer` adds to its buffer, up to the body. -/
def head (r : HttpResponse) : Bytes :=
  r.statusLine ++ r.connectionLines ++ r.headers.flatMap headerLine ++ crlf

def appendToBuffer (r : HttpResponse) (output : Bytes) : Bytes := output ++ r.head ++ r.body

end HttpResponse
end Youth.Http
