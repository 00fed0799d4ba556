/-
  Youth.Http.HttpContext.Basic

  The request parser of `youth/net/http/HttpContext.h` and `HttpContext.cpp`.

  `parseRequest` is the loop of the source over the bytes of the input buffer;
  an exception of `std::stoll` that leaves it is its one event.  There is no
  branch for `GotAll`, so a call in that state turns for ever: `parseRequest` is
  `none` there and nowhere else (`parseRequest_isSome_iff`).
-/

import Youth.Lib.Loop
import Youth.Http.HttpRequest

namespace Youth.Http

open Youth.Lib Youth.Net
open Youth.Core (DateTime)

inductive HttpRequestParseState
  | expectRequestLine
  | expectHeaders
  | expectBody
  | gotAll
  deriving DecidableEq, Repr

/-- `κ` is what the `std::any` of the context holds. -/
structure HttpContext (κ : Type) where
  state : HttpRequestParseState := .expectRequestLine
  request : HttpRequest := {}
  context : Option κ := none

variable {κ : Type}

/-- `HTTP/1.` -/
def httpVersion1 : Bytes := ascii ['H', 'T', 'T', 'P', '/', '1', '.']

namespace HttpRequest

/-- The target of a request line: `setPath` and, from the question mark on, `setQuery`. -/
def setTarget (r : HttpRequest) (target : Bytes) : HttpRequest :=
  match cut [Http.question] target with
  | some (path, query) => (r.setPath path).setQuery (Http.question :: query)
  | none => r.setPath target

/-- The last word of a request line. -/
def setVersionOf (r : HttpRequest) (word : Bytes) : Bool × HttpRequest :=
  if word.length = 8 ∧ word.take 7 = httpVersion1 then
    if word.drop 7 = [49] then (true, r.setVersion .http11)
    else if word.drop 7 = [48] then (true, r.setVersion .http10)
    else (false, r)
  else (false, r)

/-- `HttpContext::processRequestLine`; the request is written to also when it fails. -/
def processRequestLine (r : HttpRequest) (line : Bytes) : Bool × HttpRequest :=
  match cut [space] line with
  | none => (false, r)
  | some (method, rest) =>
    if (r.setMethod method).1 then
      match cut [space] rest with
      | none => (false, (r.setMethod method).2)
      | some (target, version) => (((r.setMethod method).2).setTarget target).setVersionOf version
    else (false, (r.setMethod method).2)

/-- A request line is accepted or not by its text alone. -/
theorem processRequestLine_fst (r s : HttpRequest) (line : Bytes) :
    (r.processRequestLine line).1 = (s.processRequestLine line).1 := by
  have hversion : ∀ (r s : HttpRequest) word, (r.setVersionOf word).1 = (s.setVersionOf word).1 := by
    intro r s word
    simp only [setVersionOf]
    split_ifs <;> rfl
  simp only [processRequestLine]
  rcases cut [space] line with _ | ⟨method, rest⟩
  · rfl
  rcases hrest : cut [space] rest with _ | ⟨target, version⟩
  · simp only [hrest, setMethod]
    split <;> rfl
  · simp only [hrest, setMethod]
    split
    · exact hversion _ _ _
    · rfl

/-- It writes the method, the version, the path and the query, and nothing else. -/
theorem processRequestLine_writes (r : HttpRequest) (line : Bytes) :
    ∃ method version path query, (r.processRequestLine line).2 =
      { r with method := method, version := version, path := path, query := query } := by
  simp only [processRequestLine]
  rcases cut [space] line with _ | ⟨method, rest⟩
  · exact ⟨_, _, _, _, rfl⟩
  rcases hrest : cut [space] rest with _ | ⟨target, version⟩
  · simp only [hrest]
    split <;> exact ⟨_, _, _, _, rfl⟩
  · simp only [hrest]
    split
    · rcases hquery : cut [Http.question] target with _ | ⟨path, query⟩ <;>
        simp only [setTarget, hquery, setVersionOf] <;>
        split_ifs <;> exact ⟨_, _, _, _, rfl⟩
    · exact ⟨_, _, _, _, rfl⟩

end HttpRequest

namespace HttpContext

def gotAll (c : HttpContext κ) : Bool := c.state = .gotAll

def gotBody (c : HttpContext κ) : Bool := c.state = .expectBody

def setContext (c : HttpContext κ) (context : Option κ) : HttpContext κ :=
  { c with context := context }

/-- `reset`: the state, and what `HttpRequest::swap` exchanges. -/
def reset (c : HttpContext κ) : HttpContext κ :=
  { c with state := .expectRequestLine, request := (c.request.swap {}).1 }

/-- `parseRequest` in its loop: the context, the input buffer and `ok`. -/
structure Parser (κ : Type) where
  context : HttpContext κ
  buf : Bytes
  ok : Bool

namespace Parser

/-- The branch for `ExpectRequestLine`. -/
def expectRequestLine (receiveTime : DateTime) (p : Parser κ) : Turn StollError (Parser κ) :=
  match cut crlf p.buf with
  | none => .stop [] p
  | some (line, rest) =>
    let r := p.context.request.processRequestLine line
    if r.1 then
      .next []
        { context := { p.context with
            state := .expectHeaders, request := r.2.setReceiveTime receiveTime }
          buf := rest, ok := true }
    else .stop [] { p with context := { p.context with request := r.2 }, ok := false }

/-- The branch for `ExpectHeaders`.  A line without a colon ends the headers; an
    exception leaves it in the buffer. -/
def expectHeaders (p : Parser κ) : Turn StollError (Parser κ) :=
  match cut crlf p.buf with
  | none => .stop [] p
  | some (line, rest) =>
    match cut [colon] line with
    | some (field, value) =>
      .next []
        { p with
          context := { p.context with request := p.context.request.addHeader field value }
          buf := rest }
    | none =>
      match p.context.request.initContentLength with
      | .error e => .stop [e] p
      | .ok r =>
        .stop []
          { p with
            context := { p.context with
              state := if r.contentLength = 0 then .gotAll else .expectBody, request := r }
            buf := rest }

/-- The branch for `ExpectBody`: all that is readable goes to the body. -/
def expectBody (p : Parser κ) : Turn StollError (Parser κ) :=
  match p.context.request.initContentLength with
  | .error e => .stop [e] p
  | .ok r =>
    if r.contentLength = 0 then
      .stop [] { p with context := { p.context with state := .gotAll, request := r } }
    else
      -- `m_content_length` is positive here, so `gotAllBody` does not compute it again
      let r := r.appendBody p.buf
      .stop []
        { p with
          context := { p.context with
            state := if r.gotAllBody then .gotAll else .expectBody, request := r }
          buf := [] }

/-- One turn of the loop. -/
def turn (receiveTime : DateTime) (p : Parser κ) : Turn StollError (Parser κ) :=
  match p.context.state with
  | .expectRequestLine => p.expectRequestLine receiveTime
  | .expectHeaders => p.expectHeaders
  | .expectBody => p.expectBody
  | .gotAll => .next [] p

end Parser

/-- `parseRequest`.  A turn that goes on takes a line at least, so the fuel is one
    more than the bytes there are. -/
def parseRequest (c : HttpContext κ) (buf : Bytes) (receiveTime : DateTime) :
    Option (List StollError × Parser κ) :=
  loop (Parser.turn receiveTime) (buf.length + 1) ⟨c, buf, true⟩

/-- What one read brings to the input buffer, and when. -/
structure Read where
  data : Bytes
  receiveTime : DateTime

/-- The bytes of several reads, one after the other. -/
def received (reads : List Read) : Bytes := reads.flatMap (·.data)

@[simp] theorem received_nil : received [] = [] := rfl

@[simp] theorem received_cons (read : Read) (reads : List Read) :
    received (read :: reads) = read.data ++ received reads := rfl

@[simp] theorem received_append (reads more : List Read) :
    received (reads ++ more) = received reads ++ received more := List.flatMap_append

/-- `initContentLength` writes `m_content_length`, and only when it is zero. -/
theorem initContentLength_writes {r r' : HttpRequest} (h : r.initContentLength = .ok r') :
    ∃ n, r' = { r with contentLength := n } ∧ (0 < r.contentLength → n = r.contentLength) := by
  rw [HttpRequest.initContentLength] at h
  split at h
  · cases h
    exact ⟨_, rfl, fun _ => rfl⟩
  next hzero =>
    split at h
    · cases h
      exact ⟨_, rfl, fun _ => rfl⟩
    · split at h
      · cases h
        exact ⟨_, rfl, fun hpos => absurd hpos hzero⟩
      · cases h

/-! ## One turn -/

section Turn

variable {t : DateTime} {p : Parser κ} {line rest : Bytes}

/-- Before the body, nothing happens without a complete line. -/
theorem turn_no_line (hp : p.context.state = .expectRequestLine ∨ p.context.state = .expectHeaders)
    (hcut : cut crlf p.buf = none) : p.turn t = .stop [] p := by
  rcases hp with hp | hp
  · simp only [Parser.turn, hp, Parser.expectRequestLine, hcut]
  · simp only [Parser.turn, hp, Parser.expectHeaders, hcut]

theorem turn_requestLine (hp : p.context.state = .expectRequestLine)
    (hcut : cut crlf p.buf = some (line, rest))
    (hline : (p.context.request.processRequestLine line).1 = true) :
    p.turn t = .next []
      { context := { p.context with
          state := .expectHeaders
          request := (p.context.request.processRequestLine line).2.setReceiveTime t }
        buf := rest, ok := true } := by
  simp only [Parser.turn, hp, Parser.expectRequestLine, hcut, hline, if_true]

theorem turn_refused (hp : p.context.state = .expectRequestLine)
    (hcut : cut crlf p.buf = some (line, rest))
    (hline : (p.context.request.processRequestLine line).1 = false) :
    p.turn t = .stop []
      { p with
        context := { p.context with request := (p.context.request.processRequestLine line).2 }
        ok := false } := by
  simp only [Parser.turn, hp, Parser.expectRequestLine, hcut, hline, Bool.false_eq_true, if_false]

theorem turn_header (hp : p.context.state = .expectHeaders)
    (hcut : cut crlf p.buf = some (line, rest)) {field value : Bytes}
    (hcolon : cut [colon] line = some (field, value)) :
    p.turn t = .next []
      { p with
        context := { p.context with request := p.context.request.addHeader field value }
        buf := rest } := by
  simp only [Parser.turn, hp, Parser.expectHeaders, hcut, hcolon]

/-- The context in which the headers end, once `m_content_length` is known. -/
def endHeaders (c : HttpContext κ) (r : HttpRequest) : HttpContext κ :=
  { c with state := if r.contentLength = 0 then .gotAll else .expectBody, request := r }

theorem turn_endHeaders (hp : p.context.state = .expectHeaders)
    (hcut : cut crlf p.buf = some (line, rest)) (hcolon : cut [colon] line = none)
    {r : HttpRequest} (hr : p.context.request.initContentLength = .ok r) :
    p.turn t = .stop [] { p with context := p.context.endHeaders r, buf := rest } := by
  simp only [Parser.turn, hp, Parser.expectHeaders, hcut, hcolon, hr, endHeaders]

theorem turn_raised (hp : p.context.state = .expectHeaders)
    (hcut : cut crlf p.buf = some (line, rest)) (hcolon : cut [colon] line = none)
    {e : StollError} (he : p.context.request.initContentLength = .error e) :
    p.turn t = .stop [e] p := by
  simp only [Parser.turn, hp, Parser.expectHeaders, hcut, hcolon, he]

/-- With a body to come, all that is readable goes to it. -/
theorem turn_body (hp : p.context.state = .expectBody) (hlen : 0 < p.context.request.contentLength) :
    p.turn t = .stop []
      { p with
        context := { p.context with
          state := if (p.context.request.appendBody p.buf).gotAllBody then .gotAll else .expectBody
          request := p.context.request.appendBody p.buf }
        buf := [] } := by
  have hinit : p.context.request.initContentLength = .ok p.context.request := by
    rw [HttpRequest.initContentLength, if_pos hlen]
  have hne : p.context.request.contentLength ≠ 0 := by omega
  simp only [Parser.turn, hp, Parser.expectBody, hinit, hne, if_false]

end Turn

/-! ## When the loop ends -/

/-- A cut at a line end leaves at least two bytes fewer. -/
theorem length_lt_of_cut_crlf {buf line rest : Bytes} (h : cut crlf buf = some (line, rest)) :
    rest.length < buf.length := by
  have hlen := congrArg List.length (cut_eq_append h)
  simp [crlf] at hlen
  omega

/-- A turn that goes on takes a line, and is not made in `GotAll` nor leads there. -/
theorem turn_next {t : DateTime} {p q : Parser κ} {events : List StollError}
    (hp : p.context.state ≠ .gotAll) (h : p.turn t = .next events q) :
    q.context.state ≠ .gotAll ∧ q.buf.length < p.buf.length := by
  rw [Parser.turn] at h
  split at h
  · rw [Parser.expectRequestLine] at h
    split at h
    · cases h
    next hcut =>
      dsimp only at h
      split at h
      · cases h
        exact ⟨by simp, length_lt_of_cut_crlf hcut⟩
      · cases h
  next hstate =>
    rw [Parser.expectHeaders] at h
    split at h
    · cases h
    next hcut =>
      split at h
      · cases h
        exact ⟨by simp [hstate], length_lt_of_cut_crlf hcut⟩
      · split at h <;> cases h
  · -- the body takes one turn
    rw [Parser.expectBody] at h
    split at h
    · cases h
    · split at h <;> cases h
  next hgot => exact absurd hgot hp

/-- `parseRequest` without its fuel. -/
theorem parseRequest_eq_some_iff {c : HttpContext κ} {buf : Bytes} {t : DateTime}
    {events : List StollError} {p : Parser κ} (hc : c.state ≠ .gotAll) :
    c.parseRequest buf t = some (events, p) ↔ Loops (Parser.turn t) ⟨c, buf, true⟩ events p :=
  loop_iff_loops (I := fun q : Parser κ => q.context.state ≠ .gotAll)
    (m := fun q : Parser κ => q.buf.length) (fun _ _ _ hq h => turn_next hq h) hc
    (Nat.lt_succ_self _)

/-- In `GotAll` the loop turns for ever. -/
theorem loop_turn_gotAll {t : DateTime} {p : Parser κ} (hp : p.context.state = .gotAll)
    (fuel : Nat) : loop (Parser.turn t) fuel p = none := by
  induction fuel with
  | zero => rfl
  | succ fuel ih =>
      have hturn : p.turn t = .next [] p := by rw [Parser.turn, hp]
      rw [loop_next hturn, ih]
      rfl

/-- `parseRequest` returns or raises in every state but `GotAll`. -/
theorem parseRequest_isSome_iff {c : HttpContext κ} {buf : Bytes} {t : DateTime} :
    (c.parseRequest buf t).isSome ↔ c.state ≠ .gotAll := by
  constructor
  · intro h hc
    rw [parseRequest, loop_turn_gotAll hc] at h
    cases h
  · intro hc
    obtain ⟨events, p, h⟩ := exists_loops (I := fun q : Parser κ => q.context.state ≠ .gotAll)
      (m := fun q : Parser κ => q.buf.length) (fun _ _ _ hq h => turn_next (t := t) hq h)
      (s := ⟨c, buf, true⟩) hc
    rw [(parseRequest_eq_some_iff hc).mpr h]
    rfl

/-- A call that expects a body ends at once. -/
theorem parseRequest_body {c : HttpContext κ} (hc : c.state = .expectBody)
    (hlen : 0 < c.request.contentLength) (buf : Bytes) (t : DateTime) :
    c.parseRequest buf t = some ([],
      { context := { c with
          state := if (c.request.appendBody buf).gotAllBody then .gotAll else .expectBody
          request := c.request.appendBody buf }
        buf := [], ok := true }) :=
  (parseRequest_eq_some_iff (by simp [hc])).mpr (Loops.stop (turn_body hc hlen))

/-- The same, by the request that it leaves. -/
theorem exists_parseRequest_body {c : HttpContext κ} (hc : c.state = .expectBody)
    (hlen : 0 < c.request.contentLength) (buf : Bytes) (t : DateTime) :
    ∃ (p : Parser κ) (r : HttpRequest), r = c.request.appendBody buf ∧
      c.parseRequest buf t = some ([], p) ∧ p.ok = true ∧ p.buf = [] ∧ p.context.request = r ∧
      p.context.state = if r.gotAllBody then .gotAll else .expectBody :=
  ⟨_, _, rfl, parseRequest_body hc hlen buf t, rfl, rfl, rfl, rfl⟩

end HttpContext
end Youth.Http
