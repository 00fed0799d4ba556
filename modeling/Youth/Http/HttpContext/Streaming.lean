/-
  Youth.Http.HttpContext.Streaming

  A body that is drained while it arrives.

  `readAll` moves the length of the body to `m_readSize`, so the sum that `gotAllBody`
  compares with `m_content_length` is the number of bytes that have come, whatever the
  handler has drained.  `Streams` says this of the context after some chunks; a call adds
  its chunk and a drain changes nothing but where the bytes are (`step_streams`).

  A chunk is what a call finds in the buffer; a call in the body takes all of it.  Behind
  the end of the body the server resets the context; a call without that would not return.
-/

import Youth.Lib.Machine
import Youth.Http.HttpContext.HeaderPhase

namespace Youth.Http.HttpContext

open Youth.Lib
open Youth.Core (DateTime)

variable {κ : Type}

/-- A call of `parseRequest`, and whether the ready-read handler drains the body behind it. -/
structure Chunk extends Read where
  drains : Bool := false

namespace Chunk

/-- The bytes of the chunks, one after the other. -/
def bytes (chunks : List Chunk) : Bytes := chunks.flatMap (·.data)

@[simp] theorem bytes_nil : bytes [] = [] := rfl

@[simp] theorem bytes_cons (x : Chunk) (chunks : List Chunk) :
    bytes (x :: chunks) = x.data ++ bytes chunks := rfl

@[simp] theorem bytes_append (chunks more : List Chunk) :
    bytes (chunks ++ more) = bytes chunks ++ bytes more := List.flatMap_append

end Chunk

open Chunk

/-- A body on its way: the context, and the pieces that the handler has drained. -/
structure Streaming (κ : Type) where
  context : HttpContext κ
  drained : List Bytes := []

namespace Streaming

/-- `readAll` in the handler. -/
def drain (s : Streaming κ) : Streaming κ where
  context := { s.context with request := s.context.request.readAll.2 }
  drained := s.drained ++ [s.context.request.readAll.1]

/-- One call, and the handler behind it. -/
def step (s : Streaming κ) (x : Chunk) : Option (Streaming κ) :=
  (s.context.parseRequest x.data x.receiveTime).map fun p =>
    let s := { s with context := p.2.context }
    if x.drains then s.drain else s

/-- After the bytes `seen` of a body of `n`. -/
structure Streams (n : Nat) (seen : Bytes) (s : Streaming κ) : Prop where
  state : s.context.state = if seen.length = n then .gotAll else .expectBody
  contentLength : s.context.request.contentLength = n
  count : s.context.request.body.length + s.context.request.readSize = seen.length
  pieces : s.drained.flatten ++ s.context.request.body = seen

variable {n : Nat} {seen : Bytes} {s : Streaming κ}

/-- A drain moves the body to the pieces. -/
theorem drain_streams (h : Streams n seen s) (hle : seen.length < 2 ^ 64) : Streams n seen s.drain where
  state := h.state
  contentLength := h.contentLength
  count := by
    have hcount := h.count
    -- `m_readSize` is a `size_t`, and holds the bytes seen at most
    show 0 + (s.context.request.readSize + s.context.request.body.length) % 2 ^ 64 = seen.length
    rw [Nat.mod_eq_of_lt (by omega)]
    omega
  pieces := by
    show (s.drained ++ [s.context.request.body]).flatten ++ [] = seen
    rw [List.append_nil, List.flatten_append, List.flatten_singleton]
    exact h.pieces

/-- A call before the end of the body. -/
theorem step_streams (h : Streams n seen s) (hn : n < 2 ^ 64) (hopen : seen.length ≠ n) (x : Chunk)
    (hle : (seen ++ x.data).length ≤ n) :
    ∃ s', step s x = some s' ∧ Streams n (seen ++ x.data) s' := by
  have hstate : s.context.state = .expectBody := by rw [h.state, if_neg hopen]
  have hlen : (seen ++ x.data).length = seen.length + x.data.length := List.length_append
  have hpos : 0 < s.context.request.contentLength := by
    rw [h.contentLength]
    omega
  have hparse := parseRequest_body hstate hpos x.data x.receiveTime
  -- the context behind the call, before the handler
  obtain ⟨u, hu, hstreams⟩ : ∃ u : Streaming κ,
      u = ⟨{ s.context with
          state := if (s.context.request.appendBody x.data).gotAllBody then .gotAll else .expectBody
          request := s.context.request.appendBody x.data }, s.drained⟩ ∧
      Streams n (seen ++ x.data) u := by
    refine ⟨_, rfl, ?_, h.contentLength, ?_, ?_⟩
    · -- the two counters together are the bytes seen
      have hgot : (s.context.request.appendBody x.data).gotAllBody = true ↔
          (seen ++ x.data).length = n := by
        have hcount := h.count
        have hsum : (s.context.request.body ++ x.data).length + s.context.request.readSize =
            (seen ++ x.data).length := by
          rw [List.length_append, hlen]
          omega
        show decide (((s.context.request.body ++ x.data).length + s.context.request.readSize) % 2 ^ 64 =
          s.context.request.contentLength) = true ↔ _
        rw [decide_eq_true_eq, hsum, Nat.mod_eq_of_lt (by omega), h.contentLength]
      by_cases hdone : (seen ++ x.data).length = n
      · rw [if_pos hdone]
        exact if_pos (hgot.mpr hdone)
      · rw [if_neg hdone]
        exact if_neg fun hall => hdone (hgot.mp hall)
    · show (s.context.request.body ++ x.data).length + s.context.request.readSize = _
      have hcount := h.count
      rw [List.length_append, hlen]
      omega
    · show s.drained.flatten ++ (s.context.request.body ++ x.data) = seen ++ x.data
      rw [← List.append_assoc, h.pieces]
  have hstep : step s x = some (if x.drains then u.drain else u) := by
    rw [step, hparse, hu]
    rfl
  refine ⟨_, hstep, ?_⟩
  split
  · exact drain_streams hstreams (by omega)
  · exact hstreams

/-- Behind the end of the body a call does not return. -/
theorem step_of_done (h : Streams n seen s) (hdone : seen.length = n) (x : Chunk) :
    step s x = none := by
  have hstate : s.context.state = .gotAll := by rw [h.state, if_pos hdone]
  have hnone : s.context.parseRequest x.data x.receiveTime = none := by
    rw [← Option.not_isSome_iff_eq_none, parseRequest_isSome_iff]
    exact not_not_intro hstate
  rw [step, hnone]
  rfl

/-- No call is made behind the end of the body. -/
def InTime (n : Nat) (seen : Bytes) (chunks : List Chunk) : Prop :=
  ∀ done more, chunks = done ++ more → more ≠ [] → (seen ++ bytes done).length ≠ n

theorem inTime_nil : InTime n seen [] := by
  intro done more hsplit hmore
  exact absurd (List.append_eq_nil_iff.mp hsplit.symm).2 hmore

theorem inTime_cons_iff {x : Chunk} {chunks : List Chunk} :
    InTime n seen (x :: chunks) ↔ seen.length ≠ n ∧ InTime n (seen ++ x.data) chunks := by
  constructor
  · intro hin
    refine ⟨?_, fun done more hsplit hmore => ?_⟩
    · simpa using hin [] (x :: chunks) rfl (List.cons_ne_nil _ _)
    · have hfirst := hin (x :: done) more (by rw [hsplit]; rfl) hmore
      rwa [bytes_cons, ← List.append_assoc] at hfirst
  · rintro ⟨hopen, hin⟩ done more hsplit hmore
    rcases done with _ | ⟨y, done⟩
    · simpa using hopen
    · obtain ⟨rfl, hrest⟩ := List.cons.inj hsplit
      rw [bytes_cons, ← List.append_assoc]
      exact hin done more hrest hmore

theorem InTime.of_append {chunks pre post : List Chunk} (h : InTime n seen chunks)
    (hsplit : chunks = pre ++ post) : InTime n seen pre := by
  intro done more hpre hmore
  apply h done (more ++ post)
  · rw [hsplit, hpre, List.append_assoc]
  · exact fun hnil => hmore (List.append_eq_nil_iff.mp hnil).1

/-- Calls that are in time return, and the context counts the bytes; others do not return. -/
theorem run_streams (hn : n < 2 ^ 64) (chunks : List Chunk) (h : Streams n seen s)
    (hle : (seen ++ bytes chunks).length ≤ n) :
    (InTime n seen chunks → ∃ s', run step s chunks = some s' ∧ Streams n (seen ++ bytes chunks) s') ∧
      (¬InTime n seen chunks → run step s chunks = none) := by
  induction chunks generalizing s seen with
  | nil => exact ⟨fun _ => ⟨s, rfl, by simpa using h⟩, fun hlate => absurd inTime_nil hlate⟩
  | cons x chunks ih =>
      rw [bytes_cons, ← List.append_assoc] at hle ⊢
      rw [inTime_cons_iff]
      by_cases hdone : seen.length = n
      · -- this call is too late
        refine ⟨fun hin => absurd hdone hin.1, fun _ => ?_⟩
        rw [run_cons, step_of_done h hdone]
        rfl
      · have hle' : (seen ++ x.data).length ≤ n := by
          rw [List.length_append] at hle
          omega
        obtain ⟨s', hstep, hs'⟩ := step_streams h hn hdone x hle'
        -- this call is in time, so the others are what is left to ask for
        rw [and_iff_right hdone, run_cons, hstep]
        exact ih hs' hle

end Streaming

/-! ## The context at the start of a body -/

/-- A turn before the body leaves the body, its counter and the user's context alone. -/
theorem turn_heading_body (t : DateTime) {p : Parser κ} (hp : p.context.Heading) :
    (p.turn t).state.context.request.body = p.context.request.body ∧
      (p.turn t).state.context.request.readSize = p.context.request.readSize ∧
      (p.turn t).state.context.context = p.context.context := by
  rcases hcut : cut crlf p.buf with _ | ⟨line, rest⟩
  · rw [turn_no_line hp hcut]
    exact ⟨rfl, rfl, rfl⟩
  rcases hp with hp | hp
  · obtain ⟨_, _, _, _, hwrites⟩ := p.context.request.processRequestLine_writes line
    rcases hline : (p.context.request.processRequestLine line).1 with _ | _
    · rw [turn_refused hp hcut hline]
      simp only [Turn.state_stop, hwrites, and_self]
    · rw [turn_requestLine hp hcut hline]
      simp only [Turn.state_next, hwrites, HttpRequest.setReceiveTime, and_self]
  · rcases hcolon : cut [colon] line with _ | ⟨field, value⟩
    · rcases hlen : p.context.request.initContentLength with e | r
      · rw [turn_raised hp hcut hcolon hlen]
        exact ⟨rfl, rfl, rfl⟩
      · obtain ⟨_, rfl, -⟩ := initContentLength_writes hlen
        rw [turn_endHeaders hp hcut hcolon hlen]
        exact ⟨rfl, rfl, rfl⟩
    · rw [turn_header hp hcut hcolon]
      exact ⟨rfl, rfl, rfl⟩

theorem loops_heading_body {t : DateTime} {p q : Parser κ} {events : List StollError}
    (h : Loops (Parser.turn t) p events q) (hp : p.context.Heading) (hok : p.ok = true) :
    q.context.request.body = p.context.request.body ∧
      q.context.request.readSize = p.context.request.readSize ∧
      q.context.context = p.context.context := by
  induction h with
  | stop hturn =>
      have hkeeps := turn_heading_body t hp
      rwa [hturn] at hkeeps
  | next hturn _ ih =>
      have hkeeps := turn_heading_body t hp
      -- the loop goes on before the body only
      obtain hstop | ⟨u, hnext, hu, huok, -⟩ | ⟨_, _, hstop, -⟩ := turn_feed t hp hok
      · rw [hstop] at hturn
        cases hturn
      · rw [hnext] at hturn
        cases hturn
        rw [hnext, Turn.state_next] at hkeeps
        obtain ⟨hbody, hread, hcontext⟩ := ih hu huok
        exact ⟨hbody.trans hkeeps.1, hread.trans hkeeps.2.1, hcontext.trans hkeeps.2.2⟩
      · rw [hstop] at hturn
        cases hturn

/-- A new context that expects a body has none of it yet. -/
theorem streams_of_expectBody {reads : List Read} {f : Feeding κ}
    (hf : feedHeaders {} [] reads = some f) (hstate : f.parser.context.state = .expectBody) {n : Nat}
    (hpos : 0 < n) (hn : f.parser.context.request.contentLength = n) :
    Streaming.Streams n [] ⟨f.parser.context, []⟩ ∧ f.parser.context.context = none := by
  -- again as one call on all that was read, whose turns are all before the body
  have hnew : ({} : HttpContext κ).Heading := .inl rfl
  obtain ⟨g, q, hg, hq, hparser⟩ := feedHeaders_parseRequest hnew reads 0
  rw [hf] at hg
  cases hg
  obtain ⟨hbody, hread, hcontext⟩ :=
    loops_heading_body ((parseRequest_eq_some_iff hnew.ne_gotAll).mp hq) hnew rfl
  have hb := congrArg (fun p : Parser κ => p.context.request.body) hparser
  have hr := congrArg (fun p : Parser κ => p.context.request.readSize) hparser
  have hc := congrArg (fun p : Parser κ => p.context.context) hparser
  have hnoBody : f.parser.context.request.body = [] := hb.symm.trans hbody
  have hnoRead : f.parser.context.request.readSize = 0 := hr.symm.trans hread
  refine ⟨⟨?_, hn, ?_, ?_⟩, hc.symm.trans hcontext⟩
  · rw [if_neg (by rw [List.length_nil]; omega)]
    exact hstate
  · show f.parser.context.request.body.length + f.parser.context.request.readSize = 0
    rw [hnoBody, hnoRead]
    rfl
  · exact hnoBody

/-- **Body accounting.**  After every number of calls: they have returned, the body is complete
    iff its length has come, and the pieces drained and the rest are the bytes that have come. -/
def Accounted (c : HttpContext κ) (n : Nat) (chunks : List Chunk) : Prop :=
  ∀ pre post, chunks = pre ++ post → ∃ s, run Streaming.step ⟨c, []⟩ pre = some s ∧
    (s.context.state = .gotAll ↔ (bytes pre).length = n) ∧
    s.drained.flatten ++ s.context.request.body = bytes pre

/-- A body that has its length is accounted for iff no call comes behind its end. -/
theorem accounted_iff {c : HttpContext κ} {n : Nat} (h : Streaming.Streams n [] ⟨c, []⟩)
    (hn : n < 2 ^ 64) {chunks : List Chunk} (htotal : (bytes chunks).length = n) :
    Accounted c n chunks ↔ Streaming.InTime n [] chunks := by
  -- every part of the chunks brings at most `n` bytes
  have hle {pre post : List Chunk} (hsplit : chunks = pre ++ post) :
      ([] ++ bytes pre).length ≤ n := by
    rw [List.nil_append, ← htotal, hsplit, bytes_append, List.length_append]
    omega
  constructor
  · intro hall
    by_contra hlate
    have hnone := (Streaming.run_streams hn chunks h
      (hle (List.append_nil chunks).symm)).2 hlate
    obtain ⟨s, hrun, -⟩ := hall chunks [] (List.append_nil chunks).symm
    rw [hnone] at hrun
    cases hrun
  · intro htime pre post hsplit
    obtain ⟨s, hrun, hs⟩ := (Streaming.run_streams hn pre h (hle hsplit)).1
      (htime.of_append hsplit)
    refine ⟨s, hrun, ?_, hs.pieces⟩
    rw [hs.state]
    by_cases hdone : ([] ++ bytes pre).length = n
    · rw [if_pos hdone]
      exact ⟨fun _ => hdone, fun _ => rfl⟩
    · rw [if_neg hdone]
      exact ⟨fun heq => absurd heq (by decide), fun heq => absurd heq hdone⟩

end Youth.Http.HttpContext
