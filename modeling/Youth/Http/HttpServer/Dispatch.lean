/-
  Youth.Http.HttpServer.Dispatch

  Requests received and requests dispatched.

  `onMessage` calls `parseRequest` once for every read, and `parseRequest` stops
  at the end of the headers and takes all that is readable for the body.  So the
  number of requests dispatched is the number of requests received only as long
  as the reads end where the parser stops.  `Fair` states this of one read, given
  the state it finds; `dispatched_eq_complete` follows for every run of such reads.
  `pipelined_not_dispatched` is a run that has two requests in one read.
-/

import Youth.Http.HttpContext.Reset
import Youth.Http.HttpServer.Basic

namespace Youth.Http

open Youth.Lib
open Youth.Core (DateTime)

variable {κ : Type}

/-! ## Streams of requests -/

/-- A request: a well-formed head and the body it announces. -/
structure Request where
  head : RequestHead
  body : Bytes
  declares : head.Declares body.length

namespace Request

def bytes (r : Request) : Bytes := r.head.bytes ++ r.body

/-- The requests as they are sent, one after the other. -/
def stream (reqs : List Request) : Bytes := reqs.flatMap bytes

/-- How many of the requests are complete in the first `n` bytes of the stream. -/
def complete : List Request → Nat → Nat
  | [], _ => 0
  | r :: reqs, n => if r.bytes.length ≤ n then complete reqs (n - r.bytes.length) + 1 else 0

/-- The requests that are not, and how many bytes of the first of them are there. -/
def pending : List Request → Nat → List Request × Nat
  | [], n => ([], n)
  | r :: reqs, n =>
    if r.bytes.length ≤ n then pending reqs (n - r.bytes.length) else (r :: reqs, n)

theorem length_head_pos (h : RequestHead) : 0 < h.bytes.length := by
  simp [RequestHead.bytes, crlf]

theorem length_bytes (r : Request) : r.bytes.length = r.head.bytes.length + r.body.length :=
  List.length_append

theorem length_body_lt (r : Request) : r.body.length < 2 ^ 63 := by
  have h := r.declares
  rw [RequestHead.Declares] at h
  split at h
  · rw [h]
    decide
  · have := RequestHead.lt_of_stoll h
    omega

theorem pending_add (reqs : List Request) (n k : Nat) :
    pending reqs (n + k) = pending (pending reqs n).1 ((pending reqs n).2 + k) := by
  induction reqs generalizing n with
  | nil => rfl
  | cons r reqs ih =>
      by_cases hle : r.bytes.length ≤ n
      · have hsub : n + k - r.bytes.length = n - r.bytes.length + k := by omega
        rw [pending, pending, if_pos hle, if_pos (by omega), hsub, ih]
      · simp only [pending, if_neg hle]

theorem complete_add (reqs : List Request) (n k : Nat) :
    complete reqs (n + k) =
      complete reqs n + complete (pending reqs n).1 ((pending reqs n).2 + k) := by
  induction reqs generalizing n with
  | nil => rfl
  | cons r reqs ih =>
      by_cases hle : r.bytes.length ≤ n
      · have hsub : n + k - r.bytes.length = n - r.bytes.length + k := by omega
        rw [complete, complete, pending, if_pos hle, if_pos (by omega), if_pos hle, hsub, ih]
        omega
      · simp only [complete, pending, if_neg hle, Nat.zero_add]

/-- Nothing of a request is complete before its last byte. -/
theorem complete_eq_zero_iff {r : Request} {reqs : List Request} {n : Nat} :
    complete (r :: reqs) n = 0 ↔ n < r.bytes.length := by
  rw [complete]
  split <;> omega

theorem complete_zero (reqs : List Request) : complete reqs 0 = 0 := by
  cases reqs with
  | nil => rfl
  | cons r reqs =>
      rw [complete_eq_zero_iff, length_bytes]
      have := length_head_pos r.head
      omega

/-- Without a complete request, all are pending. -/
theorem pending_of_complete_eq_zero {reqs : List Request} {n : Nat} (h : complete reqs n = 0) :
    pending reqs n = (reqs, n) := by
  cases reqs with
  | nil => rfl
  | cons r reqs =>
      rw [complete_eq_zero_iff] at h
      rw [pending, if_neg (by omega)]

end Request

open Request

namespace HttpServer

/-! ## Reads that end where the parser stops -/

/-- A read of `len` bytes, found by the context `c` when `o` bytes of the first pending
    request are there.  At most one request ends in it; the end of a body is the end of
    the read, and comes when the parser expects a body; and a head is read to its end
    with no `m_content_length` left by another request, or one that fits by chance. -/
def FairRead (c : HttpContext κ) (len : Nat) : List Request × Nat → Prop
  | ([], _) => True
  | (r :: reqs, o) =>
    (r.bytes.length ≤ o + len → complete reqs (o + len - r.bytes.length) = 0) ∧
    (r.body ≠ [] → r.bytes.length ≤ o + len →
      c.state = .expectBody ∧ o + len = r.bytes.length) ∧
    (c.state ≠ .expectBody → r.head.bytes.length ≤ o + len →
      c.request.contentLength = 0 ∨
      (r.body ≠ [] ∧ (r.body.length + c.request.readSize) % 2 ^ 64 = c.request.contentLength))

instance (c : HttpContext κ) (len : Nat) : ∀ p, Decidable (FairRead c len p)
  | ([], _) => inferInstanceAs (Decidable True)
  | (_ :: _, _) => inferInstanceAs (Decidable ((_ → _) ∧ (_ → _ → _) ∧ (_ → _ → _)))

/-- The read is fair in the state it finds. -/
def Fair (reqs : List Request) (w : World κ) (m : Message κ) : Prop :=
  FairRead w.context m.data.length (pending reqs w.received)

instance (reqs : List Request) (w : World κ) (m : Message κ) : Decidable (Fair reqs w m) :=
  inferInstanceAs (Decidable (FairRead _ _ _))

/-! ## The parser in step with the stream -/

/-- Where the parser stands when `s` has been received of the pending requests: before the
    end of a head, or in the body of the first one with the rest of it missing. -/
def Phase (w : World κ) (reqs : List Request) (s : Bytes) : Prop :=
  (∃ c₀, HttpContext.StandsFor w.context w.inputBuffer c₀ s ∧ c₀.state = .expectRequestLine ∧
    c₀.request.body = [] ∧ c₀.request.headers = fun _ => none) ∨
  (∃ r rest, reqs = r :: rest ∧ w.context.state = .expectBody ∧
    0 < w.context.request.contentLength ∧ r.head.bytes.length ≤ s.length ∧
    (w.context.request.body.length + w.context.request.readSize + w.inputBuffer.length +
      (r.bytes.length - s.length)) % 2 ^ 64 = w.context.request.contentLength)

structure Sync (w : World κ) (reqs : List Request) (s : Bytes) : Prop where
  received : s <+: stream reqs
  incomplete : complete reqs s.length = 0
  bodiless : HttpContext.Bodiless w.context.request
  phase : Phase w reqs s

/-- What one fair read does: it brings the end of at most one request, and that is
    dispatched. -/
structure Advance (w : World κ) (reqs : List Request) (s : Bytes) (m : Message κ) (w' : World κ)
    (reqs' : List Request) (s' : Bytes) : Prop where
  step : step w m = some w'
  sync : Sync w' reqs' s'
  pending : pending reqs (s.length + m.data.length) = (reqs', s'.length)
  dispatched : w'.dispatched = w.dispatched + complete reqs (s.length + m.data.length)
  received : w'.received = w.received + m.data.length
  follow : ∀ more, s ++ m.data ++ more <+: stream reqs → s' ++ more <+: stream reqs'

variable {w : World κ} {m : Message κ} {reqs : List Request} {r : Request} {s : Bytes}

theorem step_of_onMessage {events : List Event} {c : HttpContext κ} {buf : Bytes}
    (h : onMessage w.context (w.inputBuffer ++ m.data) m = some (events, c, buf)) :
    step w m = some ⟨c, buf, w.log ++ events, w.received + m.data.length⟩ := by
  rw [step, h]
  rfl

/-- A read in which no request ends. -/
theorem advance_same {events : List Event} {c : HttpContext κ} {buf : Bytes}
    (hdata : s ++ m.data <+: stream reqs)
    (hzero : complete reqs (s.length + m.data.length) = 0)
    (hon : onMessage w.context (w.inputBuffer ++ m.data) m = some (events, c, buf))
    (hevents : events.count .onRequest = 0) (hbodiless : HttpContext.Bodiless c.request)
    (hphase : ∀ log n, Phase ⟨c, buf, log, n⟩ reqs (s ++ m.data)) :
    ∃ w', Advance w reqs s m w' reqs (s ++ m.data) := by
  refine ⟨_, step_of_onMessage hon, ⟨hdata, ?_, hbodiless, hphase _ _⟩, ?_, ?_, rfl, ?_⟩
  · rwa [List.length_append]
  · rw [pending_of_complete_eq_zero hzero, List.length_append]
  · simp [World.dispatched, hevents, hzero]
  · exact fun more hmore => hmore

/-- A read in which the first pending request ends, and no other. -/
theorem advance_done {c : HttpContext κ} {rest : Bytes}
    (hdata : s ++ m.data <+: stream (r :: reqs)) (hsplit : s ++ m.data = r.bytes ++ rest)
    (hone : complete reqs rest.length = 0)
    (hon : onMessage w.context (w.inputBuffer ++ m.data) m =
      some ([.onReadyRead, .onRequest], c.reset, rest))
    (hbodiless : HttpContext.Bodiless c.request) :
    ∃ w', Advance w (r :: reqs) s m w' reqs rest := by
  have hlength : s.length + m.data.length = r.bytes.length + rest.length := by
    rw [← List.length_append, hsplit, List.length_append]
  have hfollow : ∀ more, s ++ m.data ++ more <+: stream (r :: reqs) →
      rest ++ more <+: stream reqs := by
    intro more hmore
    rw [hsplit, List.append_assoc, stream, List.flatMap_cons,
      List.prefix_append_right_inj] at hmore
    exact hmore
  have hrest : rest <+: stream reqs := by
    have := hfollow [] (by simpa using hdata)
    simpa using this
  have hstands : HttpContext.StandsFor c.reset rest c.reset rest :=
    HttpContext.StandsFor.refl (.inl rfl) rest
  refine ⟨_, step_of_onMessage hon, ⟨hrest, hone, hbodiless.reset, ?_⟩, ?_, ?_, rfl, hfollow⟩
  · exact .inl ⟨c.reset, hstands, rfl, rfl, rfl⟩
  · rw [Request.pending, if_pos (by omega), hlength, Nat.add_sub_cancel_left,
      pending_of_complete_eq_zero hone]
  · rw [complete, if_pos (by omega), hlength, Nat.add_sub_cancel_left, hone]
    simp [World.dispatched]

theorem bodiless_apply (e : Effect κ) {c : HttpContext κ} (hc : HttpContext.Bodiless c.request) :
    HttpContext.Bodiless (e.apply c).request := by
  have hdrain : HttpContext.Bodiless (e.drain c).request := by
    rw [Effect.drain]
    split
    · exact hc.readAll
    · exact hc
  rw [Effect.apply]
  split
  · exact hdrain
  · exact hdrain

/-- The callback that runs with the body incomplete keeps the parser in it: what it takes
    out is counted. -/
theorem phase_body {c : HttpContext κ} {buf : Bytes} (hstate : c.state = .expectBody)
    (hpos : 0 < c.request.contentLength) (hhead : r.head.bytes.length ≤ s.length)
    (hsize : (c.request.body.length + c.request.readSize + buf.length +
      (r.bytes.length - s.length)) % 2 ^ 64 = c.request.contentLength)
    (e : Effect κ) (log : List Event) (n : Nat) :
    Phase ⟨e.apply c, buf, log, n⟩ (r :: reqs) s := by
  refine .inr ⟨r, reqs, rfl, ?_, ?_, hhead, ?_⟩
  · rw [Effect.apply_state, hstate]
  · rw [Effect.apply_contentLength]
    exact hpos
  · have hsizes := e.apply_sizes c
    dsimp only
    rw [Effect.apply_contentLength]
    omega

/-! ## One fair read -/

/-- Before the end of the head. -/
theorem advance_waiting (h : Sync w reqs s) {c₀ : HttpContext κ}
    (hfor : HttpContext.StandsFor w.context w.inputBuffer c₀ s)
    (hc₀ : c₀.state = .expectRequestLine) (hb₀ : c₀.request.body = [])
    (hr₀ : c₀.request.headers = fun _ => none) (hdata : s ++ m.data <+: stream reqs)
    (hshort : ∀ r rest, reqs = r :: rest → s.length + m.data.length < r.head.bytes.length) :
    ∃ w' reqs' s', Advance w reqs s m w' reqs' s' := by
  obtain ⟨p, hp, hwait, hfor'⟩ : ∃ p,
      w.context.parseRequest (w.inputBuffer ++ m.data) m.receiveTime = some ([], p) ∧
      HttpContext.Waiting [] p ∧
      HttpContext.StandsFor p.context p.buf c₀ (s ++ m.data) := by
    rcases reqs with _ | ⟨r, rest⟩
    · -- all requests are there, so the read is empty
      exact hfor.parse_nothing (.inl hc₀) (List.prefix_nil.mp hdata) m.receiveTime
    · -- the bytes at hand are a part of the head
      have hlt := hshort r rest rfl
      have hprefix : s ++ m.data <+: r.head.bytes ++ (r.body ++ stream rest) := by
        simpa [stream, List.flatMap_cons, Request.bytes, List.append_assoc] using hdata
      obtain ⟨left, hleft⟩ : s ++ m.data <+: r.head.bytes :=
        List.prefix_of_prefix_length_le hprefix (List.prefix_append _ _)
          (by rw [List.length_append]; omega)
      refine hfor.parse_short r.declares hc₀ hr₀ hleft ?_ m.receiveTime
      rintro rfl
      have := congrArg List.length hleft
      simp at this
      omega
  have hzero : complete reqs (s.length + m.data.length) = 0 := by
    rcases reqs with _ | ⟨r, rest⟩
    · rfl
    · rw [complete_eq_zero_iff, length_bytes]
      have := hshort r rest rfl
      omega
  obtain ⟨w', hw'⟩ := advance_same hdata hzero (onMessage_waiting hp hwait) rfl
    (HttpContext.parseRequest_bodiless h.bodiless hp)
    (fun _ _ => .inl ⟨c₀, hfor', hc₀, hb₀, hr₀⟩)
  exact ⟨w', _, _, hw'⟩

/-- Either nothing is left of another request, or what is left adds up to this body. -/
theorem body_size {c : HttpContext κ} (hbodiless : HttpContext.Bodiless c.request)
    (hstale : c.request.contentLength = 0 ∨ r.body ≠ [] ∧
      (r.body.length + c.request.readSize) % 2 ^ 64 = c.request.contentLength)
    (hsome : r.body ≠ []) :
    (r.body.length + c.request.readSize) % 2 ^ 64 =
      if 0 < c.request.contentLength then c.request.contentLength else r.body.length := by
  have hlt := r.length_body_lt
  rcases hstale with hfresh | ⟨-, hfits⟩
  · rw [hfresh, (hbodiless hfresh).1, if_neg (by omega), Nat.add_zero, Nat.mod_eq_of_lt (by omega)]
  · split
    · exact hfits
    · have hpos : 0 < r.body.length := List.length_pos_iff.mpr hsome
      have hnone : c.request.contentLength = 0 := by omega
      rw [(hbodiless hnone).1, Nat.add_zero, Nat.mod_eq_of_lt (by omega)]

/-- The read that brings the end of the head. -/
theorem advance_head (h : Sync w (r :: reqs) s) {c₀ : HttpContext κ}
    (hfor : HttpContext.StandsFor w.context w.inputBuffer c₀ s)
    (hc₀ : c₀.state = .expectRequestLine) (hb₀ : c₀.request.body = [])
    (hr₀ : c₀.request.headers = fun _ => none) (hdata : s ++ m.data <+: stream (r :: reqs))
    (hhead : r.head.bytes.length ≤ s.length + m.data.length)
    (hfair : FairRead w.context m.data.length (r :: reqs, s.length)) :
    ∃ w' reqs' s', Advance w (r :: reqs) s m w' reqs' s' := by
  obtain ⟨hone, hend, hstale⟩ := hfair
  have hstate : w.context.state ≠ .expectBody := by
    rcases hfor.heading with hs | hs <;> simp [hs]
  have hstream : stream (r :: reqs) = r.head.bytes ++ (r.body ++ stream reqs) := by
    simp [stream, List.flatMap_cons, Request.bytes, List.append_assoc]
  obtain ⟨rest, hrest⟩ : r.head.bytes <+: s ++ m.data :=
    List.prefix_of_prefix_length_le (List.prefix_append _ _) (hstream ▸ hdata)
      (by rw [List.length_append]; exact hhead)
  have hlength : s.length + m.data.length = r.head.bytes.length + rest.length := by
    rw [← List.length_append, ← hrest, List.length_append]
  obtain ⟨p, q, hp, hok, hbuf, hcontext, hbody, hread, hlen⟩ :=
    hfor.parse_head r.declares hc₀ hr₀ hrest.symm m.receiveTime
  rw [← hfor.sizes.1] at hlen
  rw [← hfor.sizes.2] at hread
  have hbodiless : HttpContext.Bodiless p.context.request :=
    HttpContext.parseRequest_bodiless h.bodiless hp
  have hstale := hstale hstate hhead
  by_cases hzero : q.contentLength = 0
  · -- no body is expected, and none is announced
    have hnone : r.body = [] := by
      by_contra hne
      have hpos : 0 < r.body.length := List.length_pos_iff.mpr hne
      split at hlen <;> omega
    have hgot : p.context.state = .gotAll := by rw [hcontext, HttpContext.endHeaders, if_pos hzero]
    have hbytes : r.bytes = r.head.bytes := by rw [Request.bytes, hnone, List.append_nil]
    have hone := hone (by rw [hbytes]; exact hhead)
    rw [hbytes, hlength, Nat.add_sub_cancel_left] at hone
    obtain ⟨w', hw'⟩ := advance_done hdata (by rw [hbytes]; exact hrest.symm) hone
      (hbuf ▸ onMessage_gotAll hp hok hgot)
      (bodiless_apply _ (bodiless_apply _ hbodiless))
    exact ⟨w', _, _, hw'⟩
  · -- a body is expected: one is announced, and it is not there yet
    have hsome : r.body ≠ [] := by
      rcases hstale with hfresh | ⟨hne, -⟩
      · rintro hnil
        rw [hfresh, hnil] at hlen
        exact hzero (by simpa using hlen)
      · exact hne
    have hshort : s.length + m.data.length < r.bytes.length := by
      by_contra hle
      exact hstate (hend hsome (by omega)).1
    have hgot : p.context.state = .expectBody := by
      rw [hcontext, HttpContext.endHeaders, if_neg hzero]
    have hreq : p.context.request = q := by rw [hcontext, HttpContext.endHeaders]
    have hsize : (r.body.length + q.readSize) % 2 ^ 64 = q.contentLength := by
      rw [hread, hlen]
      exact body_size h.bodiless hstale hsome
    have hphase : ∀ log n, Phase ⟨m.readyRead.apply p.context, p.buf, log, n⟩ (r :: reqs)
        (s ++ m.data) := by
      have hbytes := length_bytes r
      refine phase_body hgot ?_ ?_ ?_ m.readyRead
      · rw [hreq]
        omega
      · rw [List.length_append]
        exact hhead
      · rw [hreq, hbody, hb₀, hbuf, List.length_nil, List.length_append]
        omega
    obtain ⟨w', hw'⟩ := advance_same hdata (complete_eq_zero_iff.mpr hshort)
      (onMessage_gotBody hp hok hgot) rfl (bodiless_apply _ hbodiless) hphase
    exact ⟨w', _, _, hw'⟩

/-- A read while the body is expected. -/
theorem advance_body (h : Sync w (r :: reqs) s) (hstate : w.context.state = .expectBody)
    (hpos : 0 < w.context.request.contentLength) (hhead : r.head.bytes.length ≤ s.length)
    (hsize : (w.context.request.body.length + w.context.request.readSize + w.inputBuffer.length +
      (r.bytes.length - s.length)) % 2 ^ 64 = w.context.request.contentLength)
    (hdata : s ++ m.data <+: stream (r :: reqs))
    (hfair : FairRead w.context m.data.length (r :: reqs, s.length)) :
    ∃ w' reqs' s', Advance w (r :: reqs) s m w' reqs' s' := by
  obtain ⟨-, hend, -⟩ := hfair
  have hmissing : s.length < r.bytes.length := complete_eq_zero_iff.mp h.incomplete
  have hbody : r.body ≠ [] := by
    rintro hnil
    rw [length_bytes, hnil, List.length_nil] at hmissing
    omega
  have hlt := r.length_body_lt
  have hbytes := length_bytes r
  obtain ⟨p, q, hq, hp, hok, hbuf, hreq, hgot⟩ :=
    HttpContext.exists_parseRequest_body hstate hpos (w.inputBuffer ++ m.data) m.receiveTime
  have hqlen : q.contentLength = w.context.request.contentLength := by rw [hq]; rfl
  have hqbody : q.body.length + q.readSize = w.context.request.body.length +
      w.context.request.readSize + w.inputBuffer.length + m.data.length := by
    rw [hq]
    simp only [HttpRequest.appendBody, List.length_append]
    omega
  -- the body is complete when the read has just the bytes that are missing
  have hall : q.gotAllBody = true ↔ m.data.length % 2 ^ 64 = r.bytes.length - s.length := by
    rw [HttpRequest.gotAllBody, decide_eq_true_iff, hqbody, hqlen]
    omega
  have hbodiless : HttpContext.Bodiless p.context.request :=
    HttpContext.parseRequest_bodiless h.bodiless hp
  by_cases hdone : r.bytes.length ≤ s.length + m.data.length
  · -- a fair read stops at the end of the body
    have hexact := (hend hbody hdone).2
    have hgot : p.context.state = .gotAll := by
      rw [hgot, if_pos (hall.mpr ?_)]
      rw [Nat.mod_eq_of_lt (by omega)]
      omega
    have hsplit : s ++ m.data = r.bytes ++ [] := by
      rw [List.append_nil]
      refine List.IsPrefix.eq_of_length ?_ (by rw [List.length_append]; exact hexact)
      refine List.prefix_of_prefix_length_le hdata (List.prefix_append _ (stream reqs)) ?_
      rw [List.length_append]
      omega
    obtain ⟨w', hw'⟩ := advance_done hdata hsplit (complete_zero reqs)
      (hbuf ▸ onMessage_gotAll hp hok hgot) (bodiless_apply _ (bodiless_apply _ hbodiless))
    exact ⟨w', _, _, hw'⟩
  · -- more of the body, but not all of it
    have hgot : p.context.state = .expectBody := by
      rw [hgot, if_neg]
      rw [hall, Nat.mod_eq_of_lt (by omega)]
      omega
    have hphase : ∀ log n, Phase ⟨m.readyRead.apply p.context, p.buf, log, n⟩ (r :: reqs)
        (s ++ m.data) := by
      refine phase_body hgot ?_ ?_ ?_ m.readyRead
      · rw [hreq, hqlen]
        exact hpos
      · rw [List.length_append]
        omega
      · rw [hreq, hqbody, hqlen, hbuf, List.length_nil, List.length_append]
        omega
    obtain ⟨w', hw'⟩ := advance_same hdata (complete_eq_zero_iff.mpr (by omega))
      (onMessage_gotBody hp hok hgot) rfl (bodiless_apply _ hbodiless) hphase
    exact ⟨w', _, _, hw'⟩

/-- A fair read keeps the parser in step with the stream. -/
theorem step_advance (h : Sync w reqs s) (hdata : s ++ m.data <+: stream reqs)
    (hfair : FairRead w.context m.data.length (reqs, s.length)) :
    ∃ w' reqs' s', Advance w reqs s m w' reqs' s' := by
  rcases h.phase with ⟨c₀, hfor, hc₀, hb₀, hr₀⟩ | ⟨r, rest, rfl, hstate, hpos, hhead, hsize⟩
  · rcases reqs with _ | ⟨r, rest⟩
    · exact advance_waiting h hfor hc₀ hb₀ hr₀ hdata (fun r rest hnil => by cases hnil)
    · by_cases hhead : r.head.bytes.length ≤ s.length + m.data.length
      · exact advance_head h hfor hc₀ hb₀ hr₀ hdata hhead hfair
      · refine advance_waiting h hfor hc₀ hb₀ hr₀ hdata fun r' rest' hcons => ?_
        obtain ⟨rfl, -⟩ := List.cons.inj hcons
        omega
  · exact advance_body h hstate hpos hhead hsize hdata hfair

/-! ## Runs -/

/-- The bytes that the messages bring. -/
def receivedBytes (msgs : List (Message κ)) : Bytes :=
  HttpContext.received (msgs.map Message.toRead)

/-- From a state in step with the stream, fair reads dispatch what they complete. -/
theorem run_sync {all reqs : List Request} {msgs : List (Message κ)} {w : World κ} {s : Bytes}
    (h : Sync w reqs s) (hpending : pending all w.received = (reqs, s.length))
    (hcount : w.dispatched = complete all w.received)
    (hstream : s ++ receivedBytes msgs <+: stream reqs) (hfair : Along step (Fair all) w msgs) :
    ∃ w', run step w msgs = some w' ∧
      w'.dispatched = complete all (w.received + (receivedBytes msgs).length) := by
  -- on the reads; `reqs` and `s` are what is pending of the stream in the state `w`
  induction msgs generalizing w reqs s with
  | nil => exact ⟨w, rfl, hcount⟩
  | cons m msgs ih =>
      have hcons : receivedBytes (m :: msgs) = m.data ++ receivedBytes msgs := rfl
      rw [hcons, ← List.append_assoc] at hstream
      obtain ⟨hread, hrest⟩ := hfair
      rw [Fair, hpending] at hread
      obtain ⟨w', reqs', s', hadv⟩ :=
        step_advance h ((List.prefix_append _ _).trans hstream) hread
      have hpending' : pending all w'.received = (reqs', s'.length) := by
        rw [hadv.received, pending_add, hpending]
        exact hadv.pending
      have hcount' : w'.dispatched = complete all w'.received := by
        rw [hadv.dispatched, hadv.received, complete_add all, hpending, hcount]
      obtain ⟨w'', hrun, hdone⟩ := ih hadv.sync hpending' hcount'
        (hadv.follow _ hstream) (hrest w' hadv.step)
      refine ⟨w'', ?_, ?_⟩
      · rw [run_cons, hadv.step]
        exact hrun
      · rw [hdone, hadv.received, hcons, List.length_append, Nat.add_assoc]

/-- On a stream of well-formed requests, as long as every read is fair, the requests
    dispatched after each read are the requests that are complete. -/
theorem dispatched_eq_complete (reqs : List Request) (msgs later : List (Message κ))
    (hstream : receivedBytes (msgs ++ later) <+: stream reqs)
    (hfair : Along step (Fair reqs) ({} : World κ) (msgs ++ later)) :
    ∃ w, run step {} msgs = some w ∧
      w.dispatched = complete reqs (receivedBytes msgs).length := by
  have hbegin : receivedBytes msgs <+: stream reqs := by
    refine List.IsPrefix.trans ?_ hstream
    rw [receivedBytes, receivedBytes, List.map_append, HttpContext.received_append]
    exact List.prefix_append _ _
  have hsync : Sync ({} : World κ) reqs [] :=
    { received := List.nil_prefix
      incomplete := complete_zero reqs
      bodiless := fun _ => ⟨rfl, rfl⟩
      phase := .inl ⟨{}, HttpContext.StandsFor.refl (.inl rfl) [], rfl, rfl, rfl⟩ }
  obtain ⟨w, hrun, hcount⟩ := run_sync hsync (pending_of_complete_eq_zero (complete_zero reqs))
    (complete_zero reqs).symm hbegin hfair.of_append
  exact ⟨w, hrun, by simpa using hcount⟩

/-- `GET / HTTP/1.1` -/
def getRequest : Request := ⟨RequestHead.getRoot, [], RequestHead.getRoot_declares⟩

/-- `POST / HTTP/1.1` with one byte of body -/
def postRequest : Request := ⟨RequestHead.postOne, [97], RequestHead.postOne_declares⟩

/-- A message whose callbacks leave the context alone. -/
def messageOf (data : Bytes) : Message Unit := { data := data, receiveTime := 0 }

/-- A head, its body, and nothing more: both reads are fair. -/
theorem dispatched_eq_complete_twoReads :
    ∃ w, run step ({} : World Unit) [messageOf RequestHead.postOne.bytes, messageOf [97]] = some w ∧
      w.dispatched = complete [postRequest, getRequest]
        (receivedBytes [messageOf RequestHead.postOne.bytes, messageOf [97]]).length := by
  have hsecond : (step ({} : World Unit) (messageOf RequestHead.postOne.bytes)).map
      (fun w => decide (Fair [postRequest, getRequest] w (messageOf [97]))) = some true := by
    decide +kernel
  refine dispatched_eq_complete [postRequest, getRequest] _ [] ?_ ⟨?_, fun w hw => ⟨?_, ?_⟩⟩
  · decide +kernel
  · decide +kernel
  · rw [hw] at hsecond
    simpa using hsecond
  · exact fun _ _ => trivial

/-- Two requests in one read: the first is dispatched, the second stays in the buffer. -/
theorem pipelined_not_dispatched :
    ∃ w, run step ({} : World Unit) [messageOf (stream [getRequest, getRequest])] = some w ∧
      w.dispatched = 1 ∧ w.dispatched ≠ complete [getRequest, getRequest]
        (receivedBytes [messageOf (stream [getRequest, getRequest])]).length := by
  have hrun : (run step ({} : World Unit) [messageOf (stream [getRequest, getRequest])]).map
      World.dispatched = some 1 := by decide +kernel
  have hcomplete : complete [getRequest, getRequest]
      (receivedBytes [messageOf (stream [getRequest, getRequest])]).length = 2 := by decide +kernel
  obtain ⟨w, hw, hone⟩ := Option.map_eq_some_iff.mp hrun
  refine ⟨w, hw, hone, ?_⟩
  rw [hone, hcomplete]
  decide

end HttpServer
end Youth.Http
