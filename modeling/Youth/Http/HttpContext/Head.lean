/-
  Youth.Http.HttpContext.Head

  Well-formed request heads, and what the parser makes of them.

  A `RequestHead` is a request line that `processRequestLine` accepts and header
  lines with a colon, none with a line end inside; `bytes` is how it is sent.
  `parseRequest_head` says where the parser stands after the last byte of one,
  whatever `m_content_length` an earlier request has left behind, and
  `parseRequest_short` that it waits before.
-/

import Youth.Http.HttpContext.Segmentation

namespace Youth.Http

open Youth.Lib Youth.Net
open Youth.Core (DateTime)

variable {κ : Type}

structure RequestHead where
  requestLine : Bytes
  fields : List Bytes
  accepted : (({} : HttpRequest).processRequestLine requestLine).1 = true
  one_line : ∀ line ∈ requestLine :: fields, ¬crlf <:+: line
  has_colon : ∀ line ∈ fields, colon ∈ line

namespace HttpRequest

/-- `addHeader` for a whole header line. -/
def addLine (r : HttpRequest) (line : Bytes) : HttpRequest :=
  match cut [Http.colon] line with
  | some (field, value) => r.addHeader field value
  | none => r

/-- Header lines write the header map alone. -/
theorem foldl_addLine (fields : List Bytes) (r : HttpRequest) :
    fields.foldl addLine r =
      { r with headers := (fields.foldl addLine { headers := r.headers }).headers } := by
  induction fields generalizing r with
  | nil => rfl
  | cons line fields ih =>
      rcases hline : cut [Http.colon] line with _ | ⟨field, value⟩
      · simp only [List.foldl_cons, addLine, hline]
        exact ih r
      · simp only [List.foldl_cons, addLine, hline]
        rw [ih (r.addHeader field value)]
        rfl

end HttpRequest

namespace RequestHead

/-- The head as it is sent. -/
def bytes (h : RequestHead) : Bytes := (h.requestLine :: h.fields).flatMap (· ++ crlf) ++ crlf

/-- The request after the head has been read into it. -/
def readInto (h : RequestHead) (r : HttpRequest) (t : DateTime) : HttpRequest :=
  h.fields.foldl HttpRequest.addLine ((r.processRequestLine h.requestLine).2.setReceiveTime t)

/-- The value of the `Content-Length` header, empty when there is none. -/
def contentLengthValue (h : RequestHead) : Bytes :=
  (h.readInto {} 0).getHeader HttpRequest.contentLengthField

/-- The head announces a body of `n` bytes; without the header that is none. -/
def Declares (h : RequestHead) (n : Nat) : Prop :=
  if h.contentLengthValue = [] then n = 0 else stoll h.contentLengthValue = .ok (n : Int)

instance (h : RequestHead) (n : Nat) : Decidable (h.Declares n) :=
  inferInstanceAs (Decidable (if h.contentLengthValue = [] then n = 0 else _ = _))

variable (h : RequestHead)

/-- Reading a head into a request without headers. -/
theorem readInto_eq (r : HttpRequest) (t : DateTime) (hr : r.headers = fun _ => none) :
    ∃ method version path query, h.readInto r t =
      { r with
        method := method, version := version, path := path, query := query, receiveTime := t
        headers := (h.readInto {} 0).headers } := by
  obtain ⟨method, version, path, query, hline⟩ := r.processRequestLine_writes h.requestLine
  obtain ⟨_, _, _, _, hfresh⟩ := ({} : HttpRequest).processRequestLine_writes h.requestLine
  have hheaders : (h.readInto {} 0).headers = (h.fields.foldl HttpRequest.addLine {}).headers := by
    rw [readInto, HttpRequest.foldl_addLine, hfresh]
    rfl
  refine ⟨method, version, path, query, ?_⟩
  rw [hheaders, readInto, HttpRequest.foldl_addLine, hline]
  simp only [HttpRequest.setReceiveTime, hr]

theorem lt_of_stoll {v : Bytes} {n : Int} (h : stoll v = .ok n) : n < 2 ^ 63 := by
  have hrange : ∀ value, longLong value = .ok n → n < 2 ^ 63 := by
    intro value hvalue
    rw [longLong] at hvalue
    split at hvalue
    · cases hvalue
    · cases hvalue
      omega
  rw [stoll] at h
  by_cases hdigits : (takeSign (v.dropWhile isspace)).2.takeWhile isdigit = []
  · simp only [hdigits, if_true] at h
    cases h
  · simp only [hdigits, if_false] at h
    exact hrange _ h

/-- `m_content_length` after a head that announces `n`: an earlier one is kept. -/
theorem initContentLength_readInto {n : Nat} (hn : h.Declares n) (r : HttpRequest) (t : DateTime)
    (hr : r.headers = fun _ => none) :
    (h.readInto r t).initContentLength =
      .ok { h.readInto r t with
        contentLength := if 0 < r.contentLength then r.contentLength else n } := by
  obtain ⟨method, version, path, query, heq⟩ := h.readInto_eq r t hr
  have hlen : (h.readInto r t).contentLength = r.contentLength := by rw [heq]
  have hvalue : (h.readInto r t).getHeader HttpRequest.contentLengthField = h.contentLengthValue := by
    rw [heq]
    rfl
  rw [HttpRequest.initContentLength, hlen, hvalue]
  split_ifs with hpos hnone
  · -- a length that is there is not looked up again
    rw [← hlen]
  · rw [Declares, if_pos hnone] at hn
    have hzero : r.contentLength = n := by omega
    rw [← hzero, ← hlen]
  · rw [Declares, if_neg hnone] at hn
    have hlt := lt_of_stoll hn
    rw [hn]
    simp only
    rw [sizeOfInt_natCast (by omega)]

end RequestHead

namespace HttpContext

variable {t : DateTime} {events : List StollError} {q : Parser κ}

/-- A line without a line end inside is the first one in the buffer. -/
theorem cut_line {line : Bytes} (h : ¬crlf <:+: line) (rest : Bytes) :
    cut crlf (line ++ crlf ++ rest) = some (line, rest) := by
  refine cut_separator (by decide) ?_ rest
  rintro ⟨before, after, heq⟩
  -- the match does not reach the CR that is added, since it ends with an LF
  rcases List.eq_nil_or_concat after with rfl | ⟨after, last, rfl⟩
  · have hlast := congrArg List.getLast? heq
    simp [crlf] at hlast
  · refine h ⟨before, after, ?_⟩
    have hdrop := congrArg List.dropLast heq
    simpa [crlf, ← List.append_assoc] using hdrop

/-- The header lines are read one by one. -/
theorem loops_fields (fields : List Bytes) (hline : ∀ line ∈ fields, ¬crlf <:+: line)
    (hcolon : ∀ line ∈ fields, colon ∈ line) (r : HttpRequest) (context : Option κ) (rest : Bytes) :
    Loops (Parser.turn t)
      ⟨⟨.expectHeaders, r, context⟩, fields.flatMap (· ++ crlf) ++ rest, true⟩ events q ↔
    Loops (Parser.turn t)
      ⟨⟨.expectHeaders, fields.foldl HttpRequest.addLine r, context⟩, rest, true⟩ events q := by
  induction fields generalizing r with
  | nil => exact Iff.rfl
  | cons line fields ih =>
      obtain ⟨hfirst, hline⟩ := List.forall_mem_cons.mp hline
      obtain ⟨hfirstColon, hcolon⟩ := List.forall_mem_cons.mp hcolon
      have hcut : cut crlf (line ++ crlf ++ (fields.flatMap (· ++ crlf) ++ rest)) = _ :=
        cut_line hfirst _
      -- with a colon, the line is a header and not the end of the head
      obtain ⟨⟨field, value⟩, hfield⟩ : ∃ p, cut [colon] line = some p := by
        refine Option.ne_none_iff_exists'.mp fun hnone => ?_
        exact cut_eq_none_iff.mp hnone ((List.singleton_infix_iff colon line).mpr hfirstColon)
      have hbuf : (line :: fields).flatMap (· ++ crlf) ++ rest =
          line ++ crlf ++ (fields.flatMap (· ++ crlf) ++ rest) := by
        simp [List.flatMap_cons, List.append_assoc]
      have hadd : HttpRequest.addLine r line = r.addHeader field value := by
        rw [HttpRequest.addLine, hfield]
      rw [hbuf, List.foldl_cons, hadd, ← ih hline hcolon]
      exact loops_next_iff (turn_header rfl hcut hfield)

/-- A head is read to its empty line, whatever its length is. -/
theorem parseRequest_head_eq (h : RequestHead) (c : HttpContext κ)
    (hc : c.state = .expectRequestLine) (rest : Bytes) (t : DateTime) :
    c.parseRequest (h.bytes ++ rest) t =
      match (h.readInto c.request t).initContentLength with
      | .error e =>
        some ([e], ⟨{ c with state := .expectHeaders, request := h.readInto c.request t },
          crlf ++ rest, true⟩)
      | .ok r => some ([], ⟨c.endHeaders r, rest, true⟩) := by
  have hmiddle : h.bytes ++ rest =
      h.requestLine ++ crlf ++ (h.fields.flatMap (· ++ crlf) ++ (crlf ++ rest)) := by
    simp [RequestHead.bytes, List.flatMap_cons, List.append_assoc]
  obtain ⟨hfirst, hlines⟩ := List.forall_mem_cons.mp h.one_line
  have hcut : cut crlf (h.bytes ++ rest) = _ := hmiddle ▸ cut_line hfirst _
  have hline : (c.request.processRequestLine h.requestLine).1 = true := by
    rw [← h.accepted]
    exact HttpRequest.processRequestLine_fst _ _ _
  have hempty : cut crlf (crlf ++ rest) = some ([], rest) := cut_line (by decide : ¬crlf <:+: []) rest
  rcases hlen : (h.readInto c.request t).initContentLength with e | r
  · rw [parseRequest_eq_some_iff (by simp [hc]), loops_next_iff (turn_requestLine hc hcut hline),
      loops_fields h.fields hlines h.has_colon]
    exact Loops.stop (turn_raised rfl hempty (by decide) hlen)
  · rw [parseRequest_eq_some_iff (by simp [hc]), loops_next_iff (turn_requestLine hc hcut hline),
      loops_fields h.fields hlines h.has_colon]
    exact Loops.stop (turn_endHeaders rfl hempty (by decide) hlen)

/-- Where the parser stands after the last byte of a head. -/
theorem parseRequest_head (h : RequestHead) {n : Nat} (hn : h.Declares n) (c : HttpContext κ)
    (hc : c.state = .expectRequestLine) (hr : c.request.headers = fun _ => none) (rest : Bytes)
    (t : DateTime) :
    c.parseRequest (h.bytes ++ rest) t = some ([],
      { context := c.endHeaders { h.readInto c.request t with
          contentLength := if 0 < c.request.contentLength then c.request.contentLength else n }
        buf := rest, ok := true }) := by
  rw [parseRequest_head_eq h c hc, h.initContentLength_readInto hn c.request t hr]

/-- Before the last byte of a head the parser waits. -/
theorem parseRequest_short (h : RequestHead) {n : Nat} (hn : h.Declares n) (c : HttpContext κ)
    (hc : c.state = .expectRequestLine) (hr : c.request.headers = fun _ => none) {s rest : Bytes}
    (hs : s ++ rest = h.bytes) (hrest : rest ≠ []) (t : DateTime) :
    ∃ p, c.parseRequest s t = some ([], p) ∧ Waiting [] p := by
  obtain ⟨⟨events, p⟩, hp⟩ := Option.isSome_iff_exists.mp
    (parseRequest_isSome_iff.mpr (by simp [hc]) : (c.parseRequest s t).isSome)
  by_cases hwait : Waiting events p
  · obtain rfl := hwait.1
    exact ⟨p, hp, hwait⟩
  · -- a call that ends leaves the rest in the buffer, but the whole head leaves none
    have hended := parseRequest_ended (.inl hc) hp hwait rest
    have hhead := parseRequest_head h hn c hc hr [] t
    rw [List.append_nil, ← hs, hended] at hhead
    have hbuf := congrArg (fun q : Option (List StollError × Parser κ) => q.map (·.2.buf)) hhead
    simp [Parser.feed] at hbuf
    exact absurd hbuf.2 hrest

/-! ## A head that arrives in pieces -/

section Pieces

variable {h : RequestHead} {n : Nat} {c c₀ : HttpContext κ} {buf s data rest : Bytes}

/-- The read that brings the end of the head. -/
theorem StandsFor.parse_head (hfor : StandsFor c buf c₀ s) (hn : h.Declares n)
    (hc : c₀.state = .expectRequestLine) (hr : c₀.request.headers = fun _ => none)
    (hs : s ++ data = h.bytes ++ rest) (t : DateTime) :
    ∃ p r, c.parseRequest (buf ++ data) t = some ([], p) ∧ p.ok = true ∧ p.buf = rest ∧
      p.context = c₀.endHeaders r ∧ r.body = c₀.request.body ∧
      r.readSize = c₀.request.readSize ∧
      r.contentLength = if 0 < c₀.request.contentLength then c₀.request.contentLength else n := by
  obtain ⟨⟨events, p⟩, hp⟩ := Option.isSome_iff_exists.mp
    (parseRequest_isSome_iff.mpr hfor.heading.ne_gotAll : (c.parseRequest (buf ++ data) t).isSome)
  -- The pieces give what the whole head would have given, but for the receive time
  have hwhole := parseRequest_head h hn c₀.eraseTime hc hr rest 0
  rw [← hs, hfor.parse hp] at hwhole
  obtain ⟨_, _, _, _, hinto⟩ := h.readInto_eq c₀.eraseTime.request 0 hr
  rw [hinto] at hwhole
  obtain ⟨⟨state, r, context⟩, left, ok⟩ := p
  simp only [Parser.eraseTime, eraseTime, endHeaders, Option.some.injEq, Prod.mk.injEq,
    Parser.mk.injEq, HttpContext.mk.injEq] at hwhole
  obtain ⟨rfl, ⟨rfl, hreq, rfl⟩, rfl, rfl⟩ := hwhole
  have hlen := congrArg HttpRequest.contentLength hreq
  have hbody := congrArg HttpRequest.body hreq
  have hread := congrArg HttpRequest.readSize hreq
  simp only [HttpRequest.setReceiveTime] at hlen hbody hread
  refine ⟨_, r, hp, rfl, rfl, ?_, hbody, hread, hlen⟩
  rw [endHeaders, hlen]
  rfl

/-- A read that does not bring the end of the head. -/
theorem StandsFor.parse_short (hfor : StandsFor c buf c₀ s) (hn : h.Declares n)
    (hc : c₀.state = .expectRequestLine) (hr : c₀.request.headers = fun _ => none)
    (hs : s ++ data ++ rest = h.bytes) (hrest : rest ≠ []) (t : DateTime) :
    ∃ p, c.parseRequest (buf ++ data) t = some ([], p) ∧ Waiting [] p ∧
      StandsFor p.context p.buf c₀ (s ++ data) := by
  obtain ⟨⟨events, p⟩, hp⟩ := Option.isSome_iff_exists.mp
    (parseRequest_isSome_iff.mpr hfor.heading.ne_gotAll : (c.parseRequest (buf ++ data) t).isSome)
  obtain ⟨q, hq, hwait⟩ := parseRequest_short h hn c₀.eraseTime hc hr hs hrest 0
  rw [hfor.parse hp] at hq
  cases hq
  exact ⟨p, hp, hwait, hfor.wait hp hwait⟩

/-- A read when nothing has come yet, which brings nothing. -/
theorem StandsFor.parse_nothing (hfor : StandsFor c buf c₀ s) (hc : c₀.Heading)
    (hs : s ++ data = []) (t : DateTime) :
    ∃ p, c.parseRequest (buf ++ data) t = some ([], p) ∧ Waiting [] p ∧
      StandsFor p.context p.buf c₀ (s ++ data) := by
  obtain ⟨⟨events, p⟩, hp⟩ := Option.isSome_iff_exists.mp
    (parseRequest_isSome_iff.mpr hfor.heading.ne_gotAll : (c.parseRequest (buf ++ data) t).isSome)
  have hnil := hfor.parse hp
  rw [hs, parseRequest_nil (show c₀.eraseTime.Heading from hc)] at hnil
  obtain ⟨rfl, hparser⟩ := Prod.mk.inj (Option.some.inj hnil)
  have hstate : p.context.state = c₀.state :=
    (congrArg (fun q : Parser κ => q.context.state) hparser).symm
  have hwait : Waiting [] p := by
    refine ⟨rfl, (congrArg Parser.ok hparser).symm, ?_⟩
    rw [Heading, hstate]
    exact hc
  exact ⟨p, hp, hwait, hfor.wait hp hwait⟩

end Pieces

end HttpContext

/-! ## Two heads -/

namespace RequestHead

/-- `GET / HTTP/1.1` -/
def getRoot : RequestHead where
  requestLine := ascii ['G', 'E', 'T', ' ', '/', ' ', 'H', 'T', 'T', 'P', '/', '1', '.', '1']
  fields := []
  accepted := by decide +kernel
  one_line := by decide +kernel
  has_colon := by simp

/-- `POST / HTTP/1.1` with `Content-Length: 1` -/
def postOne : RequestHead where
  requestLine := ascii ['P', 'O', 'S', 'T', ' ', '/', ' ', 'H', 'T', 'T', 'P', '/', '1', '.', '1']
  fields := [HttpRequest.contentLengthField ++ ascii [':', ' ', '1']]
  accepted := by decide +kernel
  one_line := by decide +kernel
  has_colon := by decide +kernel

theorem getRoot_declares : getRoot.Declares 0 := by decide +kernel

theorem postOne_declares : postOne.Declares 1 := by decide +kernel

end RequestHead
end Youth.Http
