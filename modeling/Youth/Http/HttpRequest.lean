/-
  Youth.Http.HttpRequest

  The request object of `youth/net/http/HttpRequest.h` and `HttpRequest.cpp`.

  A `std::string`, a `const char *` range and the readable bytes of a `Buffer`
  are lists of bytes.  The header map is a function; `m_context` of the context
  and `m_body` are kept as the source has them.  The model is the default build,
  where the assertion in `setMethod` is compiled out.  `size_t` sums are taken
  modulo 2^64.
-/

import Mathlib.Data.List.DropRight
import Mathlib.Logic.Function.Basic
import Youth.Lib.Cut
import Youth.Lib.Printf
import Youth.Net.Buffer.Basic
import Youth.Core.DateTime

namespace Youth.Http

open Youth.Lib Youth.Net
open Youth.Core (DateTime)

abbrev Bytes := List UInt8

def space : UInt8 := 32
def colon : UInt8 := 58
def question : UInt8 := 63
def crlf : Bytes := [13, 10]

/-- `isspace` in the C locale. -/
def isspace (c : UInt8) : Bool := c == 32 || (9 ≤ c && c ≤ 13)

def isdigit (c : UInt8) : Bool := 48 ≤ c && c ≤ 57

/-! ## `std::stoll` -/

/-- The exceptions of `std::stoll`. -/
inductive StollError
  | invalidArgument
  | outOfRange
  deriving DecidableEq, Repr

/-- The number a string of decimal digits denotes. -/
def decimal (digits : Bytes) : Nat := digits.foldl (fun n d => 10 * n + (d.toNat - 48)) 0

/-- The sign `strtoll` reads, and what follows it. -/
def takeSign : Bytes → Bool × Bytes
  | 45 :: s => (true, s)
  | 43 :: s => (false, s)
  | s => (false, s)

/-- A value that is not a `long long` is reported as `ERANGE`. -/
def longLong (value : Int) : Except StollError Int :=
  if value < -2 ^ 63 ∨ 2 ^ 63 ≤ value then .error .outOfRange else .ok value

/-- White space, a sign and as many digits as there are; the rest is ignored. -/
def stoll (s : Bytes) : Except StollError Int :=
  let signed := takeSign (s.dropWhile isspace)
  let digits := signed.2.takeWhile isdigit
  if digits = [] then .error .invalidArgument
  else longLong (if signed.1 then -(decimal digits : Int) else decimal digits)

/-! ## The request -/

inductive Method
  | invalid
  | get
  | post
  | head
  | put
  | delete
  deriving DecidableEq, Repr

inductive Version
  | unknown
  | http10
  | http11
  deriving DecidableEq, Repr

structure HttpRequest where
  method : Method := .invalid
  version : Version := .unknown
  path : Bytes := []
  query : Bytes := []
  receiveTime : DateTime := 0
  headers : Bytes → Option Bytes := fun _ => none
  body : Bytes := []
  contentLength : Nat := 0
  readSize : Nat := 0

namespace HttpRequest

/-- Exchanges the two requests, `m_content_length` and `m_readSize` excepted. -/
def swap (r other : HttpRequest) : HttpRequest × HttpRequest :=
  ({ other with contentLength := r.contentLength, readSize := r.readSize },
   { r with contentLength := other.contentLength, readSize := other.readSize })

/-- The comparisons of `setMethod`. -/
def methodOf (m : Bytes) : Method :=
  if m = ascii ['G', 'E', 'T'] then .get
  else if m = ascii ['P', 'O', 'S', 'T'] then .post
  else if m = ascii ['H', 'E', 'A', 'D'] then .head
  else if m = ascii ['P', 'U', 'T'] then .put
  else if m = ascii ['D', 'E', 'L', 'E', 'T', 'E'] then .delete
  else .invalid

def setMethod (r : HttpRequest) (m : Bytes) : Bool × HttpRequest :=
  (methodOf m ≠ .invalid, { r with method := methodOf m })

def setVersion (r : HttpRequest) (version : Version) : HttpRequest := { r with version := version }

def setPath (r : HttpRequest) (path : Bytes) : HttpRequest := { r with path := path }

def setQuery (r : HttpRequest) (query : Bytes) : HttpRequest := { r with query := query }

def setReceiveTime (r : HttpRequest) (t : DateTime) : HttpRequest := { r with receiveTime := t }

/-- The two trimming loops of `addHeader`. -/
def trimValue (value : Bytes) : Bytes := (value.dropWhile isspace).rdropWhile isspace

/-- `addHeader`, given the text before and after the colon. -/
def addHeader (r : HttpRequest) (field value : Bytes) : HttpRequest :=
  { r with headers := Function.update r.headers field (some (trimValue value)) }

def getHeader (r : HttpRequest) (field : Bytes) : Bytes := (r.headers field).getD []

def contentLengthField : Bytes :=
  ascii ['C', 'o', 'n', 't', 'e', 'n', 't', '-', 'L', 'e', 'n', 'g', 't', 'h']

def initContentLength (r : HttpRequest) : Except StollError HttpRequest :=
  if 0 < r.contentLength then .ok r
  else if r.getHeader contentLengthField = [] then .ok r
  else
    match stoll (r.getHeader contentLengthField) with
    | .ok n => .ok { r with contentLength := sizeOfInt n }
    | .error e => .error e

def appendBody (r : HttpRequest) (data : Bytes) : HttpRequest := { r with body := r.body ++ data }

/-- `gotAllBody`, after its `initContentLength`. -/
def gotAllBody (r : HttpRequest) : Bool :=
  (r.body.length + r.readSize) % 2 ^ 64 = r.contentLength

/-- `readAll`: the body, and the request left without it. -/
def readAll (r : HttpRequest) : Bytes × HttpRequest :=
  (r.body, { r with body := [], readSize := (r.readSize + r.body.length) % 2 ^ 64 })

end HttpRequest
end Youth.Http
