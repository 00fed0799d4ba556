/-
  Youth.Http.HttpMethod.Builder

  The method map of `HttpMethodBuilder` in `youth/net/http/HttpMethod.cc`, and the two
  dispatchers that look a request up in it.

  An entry holds a weak pointer to its handler; `lock` is what these pointers give at the
  time.  All three loops over a list of entries are the same: expired entries are erased on
  the way, up to the first live one with the path that is looked for.  `m_methodMap[key]`
  makes an entry where there is none, here as in the source.
-/

import Mathlib.Data.List.AList
import Youth.Http.HttpContext.RequestLine
import Youth.Http.HttpMethod.Basic

namespace Youth.Http

open Youth.Lib
open Youth.Core (File)

/-- The virtual functions of a handler.  Of `readyRead` the model keeps whether it drains the
    body of the request. -/
structure HttpMethodFactory where
  methodSize : Nat
  method : Nat → Bytes
  path : Nat → Bytes
  readyRead : Nat → HttpRequest → Bool
  call : Nat → HttpRequest → HttpResponse → HttpResponse

def HttpMethodFactory.defaultCall (resp : HttpResponse) : HttpResponse :=
  ((resp.setStatusCode .k404NotFound).setStatusMessage
    (ascii "Not Found".toList)).setCloseConnection true

/-- `HttpMethodFactory` itself: a page for `GET /`, in which `now` is the time. -/
def HttpMethodFactory.base (now : Bytes) : HttpMethodFactory where
  methodSize := 1
  method _ := ascii "GET".toList
  path _ := ascii "/".toList
  readyRead _ _ := false
  call _ req resp :=
    (if req.methodString = ascii "GET".toList ∧ req.path = ascii "/".toList then
      ((((resp.setStatusCode .k200Ok).setStatusMessage (ascii "OK".toList)).setContentType
        (ascii "text/html".toList)).addHeader (ascii "Server".toList)
          (ascii "youth".toList)).setBody
            (ascii ("<html><head><title>This is title</title></head>".toList ++
              "<body><h1>Hello</h1>Now is ".toList) ++ now ++ ascii "</body></html>".toList)
    else defaultCall resp).setCloseConnection true

/-- An entry: the name of its handler, and which of its methods this is. -/
structure MethodDetail where
  methodImpl : Nat
  index : Nat
  deriving DecidableEq, Repr

/-- `std::map<std::string, MethodDetailList>` -/
abbrev MethodMap := AList fun _ : Bytes => List MethodDetail

namespace HttpMethodBuilder

def isEmpty (m : MethodMap) : Bool := m.entries.isEmpty

/-- The list that `m_methodMap[key]` refers to. -/
def entries (m : MethodMap) (key : Bytes) : List MethodDetail := (m.lookup key).getD []

/-- The loop over a list of entries: what is left of it, and the entry that was found. -/
def findMethod (lock : Nat → Option HttpMethodFactory) (path : Bytes) :
    List MethodDetail → List MethodDetail × Option (HttpMethodFactory × Nat)
  | [] => ([], none)
  | methodDetail :: rest =>
    match lock methodDetail.methodImpl with
    | some share =>
      if share.path methodDetail.index = path then
        (methodDetail :: rest, some (share, methodDetail.index))
      else
        let found := findMethod lock path rest
        (methodDetail :: found.1, found.2)
    -- an expired handler: `list.erase(iter)`
    | none => findMethod lock path rest

/-- `registerMethod` from its method `i` on.  The entries are compared with the method that
    is registered, not with its path. -/
def registerFrom (lock : Nat → Option HttpMethodFactory) (self : Nat) (impl : HttpMethodFactory) :
    List Nat → MethodMap → MethodMap
  | [], m => m
  | i :: rest, m =>
    let key := impl.method i
    let found := findMethod lock key (entries m key)
    match found.2 with
    -- a duplicate returns from `registerMethod`, the methods behind it included
    | some _ => m.insert key found.1
    | none => registerFrom lock self impl rest (m.insert key (found.1 ++ [⟨self, i⟩]))

def registerMethod (lock : Nat → Option HttpMethodFactory) (m : MethodMap) (self : Nat)
    (impl : HttpMethodFactory) : MethodMap :=
  registerFrom lock self impl (List.range impl.methodSize) m

/-- `onReadyRead`: the map, the calls, the context, and whether the connection is shut down. -/
def onReadyRead (lock : Nat → Option HttpMethodFactory) (fs : FileSystem) (m : MethodMap)
    (c : HttpContext File) : MethodMap × List FileCall × HttpContext File × Bool :=
  let key := c.request.methodString
  let found := findMethod lock c.request.path (entries m key)
  (m.insert key found.1,
    match found.2 with
    | some (share, index) =>
      ([], if share.readyRead index c.request then { c with request := c.request.readAll.2 } else c,
        false)
    | none => putReadyRead fs c)

/-- What `onRequest` has done when it returns. -/
structure Answer where
  context : HttpContext File
  response : HttpResponse
  /-- `writeCompleteCallback` is set on the connection. -/
  transfers : Bool := false

/-- The handlers behind the registered ones, in their order: the calls, and the answer unless a
    handler raises. -/
def answerFile (fs : FileSystem) (c : HttpContext File) (resp : HttpResponse) :
    List FileCall × Except HandlerError Answer :=
  match putFinish c resp with
  | some (.error e) => ([], .error e)
  | some (.ok (c, resp)) => ([], .ok { context := c, response := resp })
  | none =>
    match getFile fs c resp with
    | some (calls, c, resp, transfers) =>
      (calls, .ok { context := c, response := resp, transfers := transfers })
    | none =>
      match deletePath fs c resp with
      | some (calls, resp) => (calls, resp.map fun resp => { context := c, response := resp })
      | none => ([], .ok { context := c, response := HttpMethodFactory.defaultCall resp })

/-- `onRequest`: the map, the calls, and the answer unless a handler raises. -/
def onRequest (lock : Nat → Option HttpMethodFactory) (fs : FileSystem) (m : MethodMap)
    (c : HttpContext File) (resp : HttpResponse) :
    MethodMap × List FileCall × Except HandlerError Answer :=
  let key := c.request.methodString
  let found := findMethod lock c.request.path (entries m key)
  (m.insert key found.1,
    match found.2 with
    | some (share, index) => ([], .ok { context := c, response := share.call index c.request resp })
    -- no live handler has the path
    | none => answerFile fs c resp)

/-! ## The map behind a dispatcher -/

@[simp] theorem isEmpty_empty : isEmpty ∅ = true := rfl

@[simp] theorem isEmpty_insert (m : MethodMap) (key : Bytes) (list : List MethodDetail) :
    isEmpty (m.insert key list) = false := rfl

variable (lock : Nat → Option HttpMethodFactory) (fs : FileSystem) (m : MethodMap)
  (c : HttpContext File)

/-- `m_methodMap[req.methodString()]` has made an entry. -/
theorem isEmpty_onReadyRead : isEmpty (onReadyRead lock fs m c).1 = false := rfl

theorem isEmpty_onRequest (resp : HttpResponse) :
    isEmpty (onRequest lock fs m c resp).1 = false := rfl

end HttpMethodBuilder
end Youth.Http
