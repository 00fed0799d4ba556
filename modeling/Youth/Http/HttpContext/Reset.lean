/-
  Youth.Http.HttpContext.Reset

  What a request leaves behind for the next one.

  `reset` is there to make the context as good as new.  `HttpRequest::swap` leaves
  out `m_content_length` and `m_readSize`, and `reset` does not touch `m_context`.
  Two contexts are compared by what a caller sees of them after each call of
  `parseRequest`; a context that was reset is as good as new, for every stream
  that may follow, if and only if those fields held nothing (`reset_trace_iff`).
-/

import Youth.Lib.Machine
import Youth.Http.HttpContext.Head

namespace Youth.Http.HttpContext

open Youth.Lib
open Youth.Core (DateTime)

variable {κ : Type}

/-! ## Reachable contexts -/

/-- What is done to a context: parsing whatever is in a buffer, draining the body, storing a
    per-request context, and `reset`. -/
inductive Op (κ : Type)
  | parseRequest (buf : Bytes) (receiveTime : DateTime)
  | readAll
  | setContext (context : Option κ)
  | reset

/-- A call of `parseRequest` that does not return is not a step. -/
def step (c : HttpContext κ) : Op κ → Option (HttpContext κ)
  | .parseRequest buf t => (c.parseRequest buf t).map fun p => p.2.context
  | .readAll => some { c with request := c.request.readAll.2 }
  | .setContext context => some (c.setContext context)
  | .reset => some c.reset

/-! ## What a caller sees -/

/-- A call of `parseRequest` as its caller sees it. -/
structure Observation (κ : Type) where
  raised : List StollError
  ok : Bool
  state : HttpRequestParseState
  method : Method
  version : Version
  path : Bytes
  query : Bytes
  headers : Bytes → Option Bytes
  contentLength : Nat
  body : Bytes
  context : Option κ

def observe (raised : List StollError) (p : Parser κ) : Observation κ where
  raised := raised
  ok := p.ok
  state := p.context.state
  method := p.context.request.method
  version := p.context.request.version
  path := p.context.request.path
  query := p.context.request.query
  headers := p.context.request.headers
  contentLength := p.context.request.contentLength
  body := p.context.request.body
  context := p.context.context

/-- The calls made while the reads arrive; `none` for one that does not return. -/
def trace (c : HttpContext κ) (buf : Bytes) : List Read → List (Option (Observation κ))
  | [] => []
  | read :: reads =>
    match c.parseRequest (buf ++ read.data) read.receiveTime with
    | none => [none]
    | some (raised, p) => some (observe raised p) :: trace p.context p.buf reads

/-! ## What a context without content length has not seen -/

/-- Only a request with a body has been drained or has anything to drain. -/
def Bodiless (r : HttpRequest) : Prop := r.contentLength = 0 → r.readSize = 0 ∧ r.body = []

theorem Bodiless.init {r r' : HttpRequest} (hr : Bodiless r) (h : r.initContentLength = .ok r') :
    Bodiless r' := by
  obtain ⟨n, rfl, hkeep⟩ := initContentLength_writes h
  intro hzero
  refine hr ?_
  by_contra hne
  have := hkeep (Nat.pos_of_ne_zero hne)
  simp only at hzero
  omega

theorem turn_bodiless (t : DateTime) (p : Parser κ) (hp : Bodiless p.context.request) :
    Bodiless (p.turn t).state.context.request := by
  obtain ⟨⟨state, r, context⟩, buf, ok⟩ := p
  cases state with
  | expectRequestLine =>
      simp only [Parser.turn, Parser.expectRequestLine]
      rcases cut crlf buf with _ | ⟨line, rest⟩
      · exact hp
      · obtain ⟨_, _, _, _, hline⟩ := r.processRequestLine_writes line
        simp only [hline]
        split <;> exact hp
  | expectHeaders =>
      simp only [Parser.turn, Parser.expectHeaders]
      rcases cut crlf buf with _ | ⟨line, rest⟩
      · exact hp
      rcases hcolon : cut [colon] line with _ | ⟨field, value⟩
      · simp only [hcolon]
        rcases hinit : r.initContentLength with e | r'
        · exact hp
        · exact hp.init hinit
      · simp only [hcolon]
        exact hp
  | expectBody =>
      simp only [Parser.turn, Parser.expectBody]
      rcases hinit : r.initContentLength with e | r'
      · exact hp
      · simp only
        split
        · exact hp.init hinit
        next hpos =>
          -- only here a body grows, and its length is known
          exact fun hzero => absurd hzero hpos
  | gotAll => exact hp

theorem Bodiless.readAll {r : HttpRequest} (hr : Bodiless r) : Bodiless r.readAll.2 := by
  intro hzero
  obtain ⟨hread, hbody⟩ := hr hzero
  simp [HttpRequest.readAll, hread, hbody]

theorem Bodiless.reset {c : HttpContext κ} (hc : Bodiless c.request) : Bodiless c.reset.request :=
  fun hzero => ⟨(hc hzero).1, rfl⟩

theorem parseRequest_bodiless {c : HttpContext κ} {buf : Bytes} {t : DateTime}
    {raised : List StollError} {p : Parser κ} (hc : Bodiless c.request)
    (h : c.parseRequest buf t = some (raised, p)) : Bodiless p.context.request :=
  Loops.invariant (I := fun p : Parser κ => Bodiless p.context.request) (turn_bodiless t)
    (loops_of_loop h) hc

theorem step_bodiless (c : HttpContext κ) (op : Op κ) (c' : HttpContext κ)
    (hc : Bodiless c.request) (h : step c op = some c') : Bodiless c'.request := by
  cases op with
  | parseRequest buf t =>
      obtain ⟨⟨raised, p⟩, hp, rfl⟩ := Option.map_eq_some_iff.mp h
      exact parseRequest_bodiless hc hp
  | readAll =>
      cases h
      exact hc.readAll
  | setContext context =>
      cases h
      exact hc
  | reset =>
      cases h
      exact hc.reset

/-! ## A context that was reset -/

/-- A stream that tells a used context from a new one: a request without a body. -/
theorem trace_getRoot (c : HttpContext κ) :
    ∃ seen : Observation κ,
      trace c.reset [] [⟨RequestHead.getRoot.bytes, 0⟩] = [some seen] ∧
      seen.state = (if c.request.contentLength = 0 then .gotAll else .expectBody) ∧
      seen.context = c.context := by
  have hparse := parseRequest_head RequestHead.getRoot RequestHead.getRoot_declares c.reset rfl rfl
    [] 0
  rw [List.append_nil] at hparse
  refine ⟨_, by rw [trace, List.nil_append, hparse]; rfl, ?_, rfl⟩
  have hlen : c.reset.request.contentLength = c.request.contentLength := rfl
  simp only [observe, endHeaders, hlen]
  by_cases hpos : 0 < c.request.contentLength
  · simp [hpos]
  · simp [Nat.eq_zero_of_not_pos hpos]

/-- After any use of a context, `reset` makes it as good as new if and only if no content
    length and no per-request context is stored in it. -/
theorem reset_trace_iff (ops : List (Op κ)) (c : HttpContext κ)
    (hc : run step ({} : HttpContext κ) ops = some c) :
    (∀ reads, trace c.reset [] reads = trace {} [] reads) ↔
      c.request.contentLength = 0 ∧ c.context = none := by
  have hbodiless : Bodiless c.request :=
    run_invariant (I := fun c : HttpContext κ => Bodiless c.request) step_bodiless
      (fun _ => ⟨rfl, rfl⟩) hc
  constructor
  · -- one read with a bodiless request shows both fields
    intro hsame
    obtain ⟨seen, htrace, hstate, hcontext⟩ := trace_getRoot c
    obtain ⟨fresh, hfresh, hfreshState, hfreshContext⟩ := trace_getRoot ({} : HttpContext κ)
    have hreset : ({} : HttpContext κ).reset = {} := rfl
    rw [hreset, ← hsame, htrace] at hfresh
    cases hfresh
    refine ⟨?_, hcontext.symm.trans hfreshContext⟩
    by_contra hne
    rw [hstate, if_neg hne] at hfreshState
    cases hfreshState
  · rintro ⟨hlen, hcontext⟩ reads
    -- nothing is left in the fields that `reset` keeps
    have hreset : c.reset = {} := by
      obtain ⟨hread, -⟩ := hbodiless hlen
      simp [reset, HttpRequest.swap, hlen, hread, hcontext]
    rw [hreset]

/-- After a request without a body the context is as good as new. -/
theorem reset_trace_iff_getRoot :
    ∃ c, run step ({} : HttpContext Unit) [.parseRequest RequestHead.getRoot.bytes 0] = some c ∧
      ∀ reads, trace c.reset [] reads = trace {} [] reads := by
  have hrun : (run step ({} : HttpContext Unit) [.parseRequest RequestHead.getRoot.bytes 0]).map
      (fun c => (c.request.contentLength, c.context)) = some (0, none) := by decide +kernel
  obtain ⟨c, hc, hfields⟩ := Option.map_eq_some_iff.mp hrun
  obtain ⟨hlen, hcontext⟩ := Prod.mk.inj hfields
  exact ⟨c, hc, (reset_trace_iff _ c hc).mpr ⟨hlen, hcontext⟩⟩

/-- After `POST` with one byte of body, the next `GET` is taken to have a body. -/
theorem reset_trace_ne_postOne :
    ∃ c, run step ({} : HttpContext Unit)
        [.parseRequest RequestHead.postOne.bytes 0, .parseRequest [97] 0] = some c ∧
      trace c.reset [] [⟨RequestHead.getRoot.bytes, 0⟩] ≠
        trace {} [] [⟨RequestHead.getRoot.bytes, 0⟩] := by
  have hused : (run step ({} : HttpContext Unit)
      [.parseRequest RequestHead.postOne.bytes 0, .parseRequest [97] 0]).map
        (fun c => (trace c.reset [] [⟨RequestHead.getRoot.bytes, 0⟩]).map
          (Option.map Observation.state)) = some [some .expectBody] := by decide +kernel
  have hnew : (trace ({} : HttpContext Unit) [] [⟨RequestHead.getRoot.bytes, 0⟩]).map
      (Option.map Observation.state) = [some .gotAll] := by decide +kernel
  obtain ⟨c, hc, hstates⟩ := Option.map_eq_some_iff.mp hused
  refine ⟨c, hc, fun hsame => ?_⟩
  rw [hsame, hnew] at hstates
  cases hstates

end Youth.Http.HttpContext
