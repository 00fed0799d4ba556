/-
  Youth.Http.HttpContext.HeaderPhase

  The parser up to the end of the headers, over any byte stream.

  Whatever the bytes are, they begin with some complete lines that have a colon, and the
  parser reads these as header lines (`Fields`); the next complete line, if there is one,
  has none and ends the headers or raises (`parseRequest_expectHeaders`).  Together with
  the results on where the input is cut this gives `header_phase_segmentation`.

  The comment in the source says "empty line, end of header", but the parser only asks
  whether there is a colon.  So a line of text without one ends the headers as well, and
  what follows is taken for the body or for the next request (`ends_at_empty_line_iff`).
-/

import Youth.Http.HttpContext.Body

namespace Youth.Http.HttpContext

open Youth.Lib
open Youth.Core (DateTime)

variable {κ : Type}

/-! ## The lines of a stream -/

/-- `buf` begins with the header lines `fields`, and the line behind them is none. -/
structure Fields (buf : Bytes) (fields : List Bytes) (rest : Bytes) : Prop where
  eq : buf = fields.flatMap (· ++ crlf) ++ rest
  one_line : ∀ line ∈ fields, ¬crlf <:+: line
  has_colon : ∀ line ∈ fields, colon ∈ line
  bare : ∀ line after, cut crlf rest = some (line, after) → colon ∉ line

theorem cut_colon_eq_none {line : Bytes} (h : colon ∉ line) : cut [colon] line = none :=
  cut_eq_none_iff.mpr fun hin => h ((List.singleton_infix_iff colon line).mp hin)

/-- Every stream can be read so. -/
theorem exists_fields (buf : Bytes) : ∃ fields rest, Fields buf fields rest := by
  -- over the length: a complete line with a colon is one more field
  induction hn : buf.length using Nat.strongRecOn generalizing buf with
  | ind n ih =>
      rcases hcut : cut crlf buf with _ | ⟨line, after⟩
      · exact ⟨[], buf, rfl, by simp, by simp, fun line after h => by simp [hcut] at h⟩
      by_cases hcolon : colon ∈ line
      · obtain ⟨fields, rest, h⟩ := ih after.length (hn ▸ length_lt_of_cut_crlf hcut) after rfl
        refine ⟨line :: fields, rest, ?_, ?_, ?_, h.bare⟩
        · rw [cut_eq_append hcut, h.eq]
          simp [List.flatMap_cons, List.append_assoc]
        · exact List.forall_mem_cons.mpr ⟨not_infix_of_cut (by decide) hcut, h.one_line⟩
        · exact List.forall_mem_cons.mpr ⟨hcolon, h.has_colon⟩
      · refine ⟨[], buf, rfl, by simp, by simp, fun line' after' h => ?_⟩
        rw [hcut] at h
        cases h
        exact hcolon

/-! ## One call -/

variable {c : HttpContext κ} {buf rest : Bytes} {fields : List Bytes} {t : DateTime}

/-- A call in the headers, over any stream: it reads the header lines, and then waits for a
    line, raises, or ends the headers. -/
theorem parseRequest_expectHeaders (hc : c.state = .expectHeaders) (h : Fields buf fields rest)
    (t : DateTime) :
    c.parseRequest buf t =
      match cut crlf rest with
      | none => some ([], ⟨{ c with request := fields.foldl HttpRequest.addLine c.request }, rest, true⟩)
      | some (_, after) =>
        match (fields.foldl HttpRequest.addLine c.request).initContentLength with
        | .error e =>
          some ([e], ⟨{ c with request := fields.foldl HttpRequest.addLine c.request }, rest, true⟩)
        | .ok r => some ([], ⟨c.endHeaders r, after, true⟩) := by
  obtain ⟨state, r, context⟩ := c
  simp only at hc
  subst hc
  have hloops {events : List StollError} {q : Parser κ}
      (hturn : Parser.turn t ⟨⟨.expectHeaders, fields.foldl HttpRequest.addLine r, context⟩, rest, true⟩ =
        .stop events q) :
      HttpContext.parseRequest ⟨.expectHeaders, r, context⟩ buf t = some (events, q) := by
    rw [parseRequest_eq_some_iff (by simp), h.eq, loops_fields fields h.one_line h.has_colon]
    exact Loops.stop hturn
  rcases hcut : cut crlf rest with _ | ⟨line, after⟩
  · exact hloops (turn_no_line (.inr rfl) hcut)
  · have hcolon := cut_colon_eq_none (h.bare line after hcut)
    rcases hlen : (fields.foldl HttpRequest.addLine r).initContentLength with e | r'
    · exact hloops (turn_raised rfl hcut hcolon hlen)
    · exact hloops (turn_endHeaders rfl hcut hcolon hlen)

/-- The headers are behind the parser. -/
def HeadersEnded (c : HttpContext κ) : Prop := c.state = .expectBody ∨ c.state = .gotAll

instance (c : HttpContext κ) : Decidable c.HeadersEnded := inferInstanceAs (Decidable (_ ∨ _))

theorem heading_iff_not_headersEnded (c : HttpContext κ) : c.Heading ↔ ¬c.HeadersEnded := by
  rcases h : c.state with _ | _ | _ | _ <;> simp [Heading, HeadersEnded, h]

theorem endHeaders_headersEnded (c : HttpContext κ) (r : HttpRequest) :
    (c.endHeaders r).HeadersEnded := by
  by_cases hzero : r.contentLength = 0
  · exact .inr (by simp [endHeaders, hzero])
  · exact .inl (by simp [endHeaders, hzero])

/-- A call in the headers that ends them does so at the first complete line without a
    colon, and takes nothing behind it. -/
theorem parseRequest_expectHeaders_ended (hc : c.state = .expectHeaders)
    {events : List StollError} {q : Parser κ} (hq : c.parseRequest buf t = some (events, q))
    (hended : q.context.HeadersEnded) :
    ∃ (fields : List Bytes) (line : Bytes) (r : HttpRequest),
      buf = fields.flatMap (· ++ crlf) ++ (line ++ crlf) ++ q.buf ∧
      (∀ line ∈ fields, ¬crlf <:+: line) ∧ (∀ line ∈ fields, colon ∈ line) ∧
      ¬crlf <:+: line ∧ colon ∉ line ∧
      (fields.foldl HttpRequest.addLine c.request).initContentLength = .ok r ∧
      q.context = c.endHeaders r := by
  obtain ⟨fields, rest, h⟩ := exists_fields buf
  have hheading : ∀ r : HttpRequest, ¬({ c with request := r } : HttpContext κ).HeadersEnded :=
    fun r => (heading_iff_not_headersEnded _).mp (.inr hc)
  rw [parseRequest_expectHeaders hc h t] at hq
  rcases hcut : cut crlf rest with _ | ⟨line, after⟩
  · rw [hcut] at hq
    cases hq
    exact absurd hended (hheading _)
  rcases hlen : (fields.foldl HttpRequest.addLine c.request).initContentLength with e | r
  · simp only [hcut, hlen, Option.some.injEq, Prod.mk.injEq] at hq
    obtain ⟨-, rfl⟩ := hq
    exact absurd hended (hheading _)
  · simp only [hcut, hlen, Option.some.injEq, Prod.mk.injEq] at hq
    obtain ⟨-, rfl⟩ := hq
    have heq : buf = fields.flatMap (· ++ crlf) ++ (line ++ crlf) ++ after := by
      rw [h.eq, cut_eq_append hcut]
      simp [List.append_assoc]
    exact ⟨fields, line, r, heq, h.one_line, h.has_colon, not_infix_of_cut (by decide) hcut,
      h.bare line after hcut, hlen, rfl⟩

/-- A call from the start of a request that ends the headers has read a request line and
    header lines, and one line without a colon. -/
theorem parseRequest_ended_lines (hc : c.state = .expectRequestLine) {events : List StollError}
    {q : Parser κ} (hq : c.parseRequest buf t = some (events, q)) (hended : q.context.HeadersEnded) :
    ∃ (requestLine : Bytes) (fields : List Bytes) (line : Bytes),
      buf = (requestLine :: fields).flatMap (· ++ crlf) ++ (line ++ crlf) ++ q.buf ∧
      (∀ l ∈ requestLine :: fields, ¬crlf <:+: l) ∧ (∀ l ∈ fields, colon ∈ l) ∧
      ¬crlf <:+: line ∧ colon ∉ line := by
  have hheading : ∀ r : HttpRequest, ¬({ c with request := r } : HttpContext κ).HeadersEnded :=
    fun r => (heading_iff_not_headersEnded _).mp (.inl hc)
  have hloops := (parseRequest_eq_some_iff (by simp [hc])).mp hq
  rcases hcut : cut crlf buf with _ | ⟨requestLine, rest⟩
  · -- no line yet
    rw [parseRequest_eq_some_iff (by simp [hc]) |>.mpr
      (Loops.stop (turn_no_line (p := ⟨c, buf, true⟩) (.inl hc) hcut))] at hq
    cases hq
    exact absurd hended (hheading _)
  rcases hline : (c.request.processRequestLine requestLine).1 with _ | _
  · rw [parseRequest_eq_some_iff (by simp [hc]) |>.mpr
      (Loops.stop (turn_refused (p := ⟨c, buf, true⟩) hc hcut hline))] at hq
    cases hq
    exact absurd hended (hheading _)
  · -- the rest of the call is a call in the headers
    rw [loops_next_iff (turn_requestLine (p := ⟨c, buf, true⟩) hc hcut hline)] at hloops
    have hrest := (parseRequest_eq_some_iff (by simp)).mpr hloops
    obtain ⟨fields, line, -, heq, hone, hcolon, hlast, hbare, -⟩ :=
      parseRequest_expectHeaders_ended rfl hrest hended
    refine ⟨requestLine, fields, line, ?_, ?_, hcolon, hlast, hbare⟩
    · rw [cut_eq_append hcut, heq]
      simp [List.flatMap_cons, List.append_assoc]
    · exact List.forall_mem_cons.mpr ⟨not_infix_of_cut (by decide) hcut, hone⟩

/-! ## Reads -/

/-- The reads go to the parser one by one, until a call returns false, raises, or has the
    headers behind it. -/
def feedHeaders (c : HttpContext κ) (buf : Bytes) : List Read → Option (Feeding κ)
  | [] => some ⟨[], ⟨c, buf, true⟩, []⟩
  | read :: reads =>
    (c.parseRequest (buf ++ read.data) read.receiveTime).bind fun p =>
      if p.1 = [] ∧ p.2.ok = true ∧ ¬p.2.context.HeadersEnded then
        feedHeaders p.2.context p.2.buf reads
      else some ⟨p.1, p.2, reads⟩

theorem waiting_iff {events : List StollError} {p : Parser κ} :
    Waiting events p ↔ events = [] ∧ p.ok = true ∧ ¬p.context.HeadersEnded := by
  rw [Waiting, heading_iff_not_headersEnded]

/-- A call that waits would wait again without more input. -/
theorem Waiting.again (hc : c.Heading) {events : List StollError} {p : Parser κ}
    (hp : c.parseRequest buf t = some (events, p)) (hwait : Waiting events p) :
    p.context.parseRequest p.buf t = some ([], ⟨p.context, p.buf, true⟩) := by
  have hmore := parseRequest_waiting hc hp hwait []
  rw [List.append_nil, List.append_nil, hp] at hmore
  obtain ⟨rfl, hok, -⟩ := hwait
  rw [← hmore, ← hok]

/-- Feeding reads ends as one call on all their bytes, receive times apart. -/
theorem feedHeaders_eq {c₀ : HttpContext κ} (hc₀ : c₀.Heading) {s : Bytes} (reads : List Read)
    (h : StandsFor c buf c₀ s) (hbuf : c.parseRequest buf t = some ([], ⟨c, buf, true⟩)) :
    ∃ f, feedHeaders c buf reads = some f ∧
      c₀.eraseTime.parseRequest (s ++ received reads) 0 =
        some (f.events, (f.parser.feed (received f.unread)).eraseTime) := by
  -- over the reads: a call that waits stands for all that has been read
  induction reads generalizing c buf s t with
  | nil =>
      have hpad : c.parseRequest (buf ++ []) t = some ([], ⟨c, buf, true⟩) := by
        rw [List.append_nil]
        exact hbuf
      exact ⟨_, rfl, by simpa [Parser.feed] using h.parse hpad⟩
  | cons read reads ih =>
      obtain ⟨⟨events, p⟩, hp⟩ := Option.isSome_iff_exists.mp
        (parseRequest_isSome_iff.mpr h.heading.ne_gotAll :
          (c.parseRequest (buf ++ read.data) read.receiveTime).isSome)
      rw [received_cons, ← List.append_assoc]
      by_cases hwait : Waiting events p
      · have hgo : feedHeaders c buf (read :: reads) = feedHeaders p.context p.buf reads := by
          rw [feedHeaders, hp, Option.bind_some, if_pos (waiting_iff.mp hwait)]
        rw [hgo]
        exact ih (h.wait hp hwait) (hwait.again h.heading hp)
      · have hstop : feedHeaders c buf (read :: reads) = some ⟨events, p, reads⟩ := by
          rw [feedHeaders, hp, Option.bind_some, if_neg fun hgo => hwait (waiting_iff.mpr hgo)]
        -- the reads that are left only lengthen the buffer
        have hheading : c₀.eraseTime.Heading := hc₀
        exact ⟨_, hstop, parseRequest_ended hheading (h.parse hp) hwait (received reads)⟩

/-- The same for a new phase, with a receive time for the one call. -/
theorem feedHeaders_parseRequest (hc : c.Heading) (reads : List Read) (t : DateTime) :
    ∃ f q, feedHeaders c [] reads = some f ∧ c.parseRequest (received reads) t = some (f.events, q) ∧
      q.eraseTime = (f.parser.feed (received f.unread)).eraseTime := by
  obtain ⟨f, hf, hall⟩ := feedHeaders_eq hc reads (StandsFor.refl hc []) (parseRequest_nil hc (t := 0))
  obtain ⟨⟨events, q⟩, hq⟩ := Option.isSome_iff_exists.mp
    (parseRequest_isSome_iff.mpr hc.ne_gotAll : (c.parseRequest (received reads) t).isSome)
  -- both are the call without times
  have hsame := parseRequest_eraseTime c (received reads) t
  rw [hq, Option.map_some] at hsame
  rw [List.nil_append, hsame, Option.some.injEq, Prod.mk.injEq] at hall
  obtain ⟨rfl, hparser⟩ := hall
  exact ⟨f, q, hf, hq, hparser⟩

/-- **The header phase does not depend on where the input is cut.**  Feeding a new context
    read by read ends as one call on all the bytes does: with the same result, the same
    state and request, and the same bytes unread.  Where the headers end, these are the
    bytes behind the first line, after the request line, that has no colon. -/
theorem header_phase_segmentation (reads : List Read) (t : DateTime) :
    ∃ (f : Feeding κ) (q : Parser κ), feedHeaders {} [] reads = some f ∧
      ({} : HttpContext κ).parseRequest (received reads) t = some (f.events, q) ∧
      q.ok = f.parser.ok ∧ q.context.state = f.parser.context.state ∧
      q.context.request.method = f.parser.context.request.method ∧
      q.context.request.version = f.parser.context.request.version ∧
      q.context.request.path = f.parser.context.request.path ∧
      q.context.request.query = f.parser.context.request.query ∧
      q.context.request.headers = f.parser.context.request.headers ∧
      q.buf = f.parser.buf ++ received f.unread ∧
      (q.context.HeadersEnded → ∃ (requestLine : Bytes) (fields : List Bytes) (line : Bytes),
        received reads = (requestLine :: fields).flatMap (· ++ crlf) ++ (line ++ crlf) ++ q.buf ∧
        (∀ l ∈ requestLine :: fields, ¬crlf <:+: l) ∧ (∀ l ∈ fields, colon ∈ l) ∧
        ¬crlf <:+: line ∧ colon ∉ line) := by
  obtain ⟨f, q, hf, hq, hparser⟩ :=
    feedHeaders_parseRequest (c := ({} : HttpContext κ)) (.inl rfl) reads t
  have hok := congrArg Parser.ok hparser
  have hstate := congrArg (fun p : Parser κ => p.context.state) hparser
  have hmethod := congrArg (fun p : Parser κ => p.context.request.method) hparser
  have hversion := congrArg (fun p : Parser κ => p.context.request.version) hparser
  have hpath := congrArg (fun p : Parser κ => p.context.request.path) hparser
  have hquery := congrArg (fun p : Parser κ => p.context.request.query) hparser
  have hheaders := congrArg (fun p : Parser κ => p.context.request.headers) hparser
  have hbuf := congrArg Parser.buf hparser
  refine ⟨f, q, hf, hq, hok, hstate, hmethod, hversion, hpath, hquery, hheaders, hbuf, ?_⟩
  exact parseRequest_ended_lines rfl hq

/-! ## The line that ends the headers -/

/-- The headers end, if they end, with an empty line: a line end at the start of a line. -/
def EndsAtEmptyLine (c : HttpContext κ) (reads : List Read) : Prop :=
  ∀ f, feedHeaders c [] reads = some f → f.parser.context.HeadersEnded →
    ∃ lines, received reads = lines ++ crlf ++ (f.parser.buf ++ received f.unread) ∧
      (lines = [] ∨ crlf <:+ lines)

/-- The first complete line without a colon is empty.  (Where the length announced before it
    is none, `contentLength()` raises and the line is not taken at all.) -/
def FirstBareLineEmpty (c : HttpContext κ) (s : Bytes) : Prop :=
  ∀ fields rest line after, Fields s fields rest → cut crlf rest = some (line, after) →
    line = [] ∨ ∃ e, (fields.foldl HttpRequest.addLine c.request).initContentLength = .error e

/-- Behind complete lines a line starts. -/
theorem flatMap_crlf_end (fields : List Bytes) :
    fields.flatMap (· ++ crlf) = [] ∨ crlf <:+ fields.flatMap (· ++ crlf) := by
  rcases List.eq_nil_or_concat fields with rfl | ⟨front, last, rfl⟩
  · exact .inl rfl
  · right
    rw [List.concat_eq_append, List.flatMap_append, List.flatMap_singleton, ← List.append_assoc]
    exact List.suffix_append _ _

/-- A line end in front of which a line starts closes an empty line. -/
theorem line_eq_nil {fields : List Bytes} {line : Bytes} (hone : ¬crlf <:+: line)
    (h : fields.flatMap (· ++ crlf) ++ line = [] ∨
      crlf <:+ fields.flatMap (· ++ crlf) ++ line) : line = [] := by
  rcases h with h | h
  · exact (List.append_eq_nil_iff.mp h).2
  rcases line with _ | ⟨x, _ | ⟨y, ys⟩⟩
  · rfl
  · -- the line end would be half in the line and half before it
    obtain ⟨front, hfront⟩ := h
    have hsplit : (front ++ [13]) ++ [10] = fields.flatMap (· ++ crlf) ++ [x] := by
      rw [← hfront]
      simp [crlf]
    have hbefore := (List.append_inj' hsplit rfl).1
    rcases flatMap_crlf_end fields with hnil | ⟨w, hw⟩
    · rw [hnil] at hbefore
      simp at hbefore
    · rw [← hw] at hbefore
      have hlast := congrArg List.getLast? hbefore
      simp [crlf] at hlast
  · -- a line end of two bytes fits into the line
    exact absurd (List.suffix_of_suffix_length_le h (List.suffix_append _ _) (by simp [crlf])).isInfix
      hone

/-- **Only an empty line ends the headers**, if and only if the first line without a colon
    is empty. -/
theorem ends_at_empty_line_iff (c : HttpContext κ) (hc : c.state = .expectHeaders)
    (reads : List Read) : EndsAtEmptyLine c reads ↔ FirstBareLineEmpty c (received reads) := by
  obtain ⟨f, q, hf, hq, hparser⟩ := feedHeaders_parseRequest (c := c) (.inr hc) reads 0
  have hbuf : q.buf = f.parser.buf ++ received f.unread := congrArg Parser.buf hparser
  have hstate := congrArg (fun p : Parser κ => p.context.state) hparser
  have hended : f.parser.context.HeadersEnded ↔ q.context.HeadersEnded := by
    rw [HeadersEnded, HeadersEnded, show q.context.state = f.parser.context.state from hstate]
  constructor
  · intro hprop fields rest line after hfields hcut
    rw [parseRequest_expectHeaders hc hfields, hcut] at hq
    rcases hlen : (fields.foldl HttpRequest.addLine c.request).initContentLength with e | r
    · exact .inr ⟨e, rfl⟩
    left
    simp only [hlen, Option.some.injEq, Prod.mk.injEq] at hq
    obtain ⟨-, rfl⟩ := hq
    obtain ⟨lines, hlines, hstart⟩ := hprop f hf (hended.mpr (endHeaders_headersEnded c r))
    -- the same bytes are left unread, so the same bytes were taken
    have htaken : fields.flatMap (· ++ crlf) ++ line = lines := by
      rw [← hbuf, hfields.eq, cut_eq_append hcut, ← List.append_assoc, ← List.append_assoc] at hlines
      exact List.append_cancel_right (List.append_cancel_right hlines)
    rw [← htaken] at hstart
    exact line_eq_nil (not_infix_of_cut (by decide) hcut) hstart
  · intro hempty g hg hgended
    rw [hf] at hg
    cases hg
    obtain ⟨fields, line, r, heq, hone, hcolon, hline, hbare, hr, -⟩ :=
      parseRequest_expectHeaders_ended hc hq (hended.mp hgended)
    have hfields : Fields (received reads) fields (line ++ crlf ++ q.buf) :=
      ⟨by rw [heq]; simp [List.append_assoc], hone, hcolon, fun l after hl => by
        rw [cut_line hline] at hl
        cases hl
        exact hbare⟩
    rcases hempty fields _ line q.buf hfields (cut_line hline q.buf) with rfl | ⟨e, he⟩
    · refine ⟨fields.flatMap (· ++ crlf), ?_, flatMap_crlf_end fields⟩
      rw [← hbuf, heq, List.nil_append]
    · rw [hr] at he
      cases he

/-- The context behind `GET / HTTP/1.1`. -/
def behindRequestLine : HttpContext Unit where
  state := .expectHeaders
  request := (({} : HttpRequest).processRequestLine RequestHead.getRoot.requestLine).2

theorem ends_at_empty_line_iff_host :
    behindRequestLine.state = .expectHeaders ∧
      (EndsAtEmptyLine behindRequestLine [⟨ascii "Host: a\r\n\r\n".toList, 0⟩] ↔
        FirstBareLineEmpty behindRequestLine (ascii "Host: a\r\n\r\n".toList)) :=
  ⟨rfl, ends_at_empty_line_iff behindRequestLine rfl [⟨ascii "Host: a\r\n\r\n".toList, 0⟩]⟩

/-- `Host` alone on its line ends the headers, and the next line is left for the next
    request. -/
theorem host_line_ends_headers :
    ¬EndsAtEmptyLine behindRequestLine [⟨ascii "Host\r\nA: b\r\n\r\n".toList, 0⟩] := by
  intro h
  have hfed : (feedHeaders behindRequestLine [] [⟨ascii "Host\r\nA: b\r\n\r\n".toList, 0⟩]).map
      (fun f => (f.parser.context.state, f.parser.buf, f.unread.length)) =
      some (.gotAll, ascii "A: b\r\n\r\n".toList, 0) := by decide +kernel
  obtain ⟨f, hf, hseen⟩ := Option.map_eq_some_iff.mp hfed
  simp only [Prod.mk.injEq] at hseen
  obtain ⟨hstate, hbuf, hunread⟩ := hseen
  obtain ⟨lines, hlines, hstart⟩ := h f hf (.inr hstate)
  rw [hbuf, List.eq_nil_of_length_eq_zero hunread, received_nil, List.append_nil] at hlines
  -- what was taken is `Host` and its line end
  have htaken : lines = ascii "Host".toList := by
    have hsplit : ascii "Host".toList ++ (crlf ++ ascii "A: b\r\n\r\n".toList) =
        lines ++ (crlf ++ ascii "A: b\r\n\r\n".toList) := by
      rw [← List.append_assoc lines, ← hlines]
      decide
    exact (List.append_cancel_right hsplit).symm
  rw [htaken] at hstart
  revert hstart
  decide

end Youth.Http.HttpContext
