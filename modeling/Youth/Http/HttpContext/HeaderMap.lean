/-
  Youth.Http.HttpContext.HeaderMap

  What `getHeader` gives once the head of a request has been parsed.

  `addHeader` is called for the header lines in their order, and each call writes the map
  at the text before the first colon of its line.  So a name has the value of the last
  line for it (`getHeader_foldl_addLine`).  The value is trimmed by two loops, one with a
  cursor and one that shortens the string; `trimLoops_eq` says that they leave what
  `string::trimmed` does.
-/

import Youth.Core.StringFunction
import Youth.Http.HttpContext.HeaderPhase

namespace Youth.Http

open Youth.Lib Youth.Net
open Youth.Core.StringFunction (trimmed trimmed_eq)

/-! ## The trimming loops -/

/-- A turn of `while (colon < end && isspace(*colon))`; `text` is what stands behind the
    colon. -/
def skipTurn (text : Bytes) (colon : Nat) : Turn Unit Nat :=
  match text[colon]? with
  | none => .stop [] colon
  | some c => if isspace c then .next [] (colon + 1) else .stop [] colon

/-- A turn of `while (!value.empty() && isspace(value[value.size() - 1]))`. -/
def resizeTurn (value : Bytes) : Turn Unit Bytes :=
  match value[value.length - 1]? with
  | none => .stop [] value
  | some c => if isspace c then .next [] (value.take (value.length - 1)) else .stop [] value

/-- The value that `addHeader` stores for the text behind the colon. -/
def trimLoops (fuel : Nat) (text : Bytes) : Option Bytes :=
  (loop (skipTurn text) fuel 0).bind fun p =>
    (loop resizeTurn fuel (text.drop p.2)).map (·.2)

theorem loop_skipTurn {text : Bytes} (colon : Nat) {fuel : Nat}
    (hfuel : text.length - colon < fuel) :
    ∃ last, loop (skipTurn text) fuel colon = some ([], last) ∧
      text.drop last = (text.drop colon).dropWhile isspace := by
  induction fuel generalizing colon with
  | zero => omega
  | succ fuel ih =>
      rcases hget : text[colon]? with _ | c
      · have hend : text.drop colon = [] := List.drop_eq_nil_of_le (List.getElem?_eq_none_iff.mp hget)
        have hturn : skipTurn text colon = .stop [] colon := by rw [skipTurn, hget]
        exact ⟨colon, loop_stop hturn fuel, by rw [hend, List.dropWhile_nil]⟩
      · obtain ⟨hlt, hc⟩ := List.getElem?_eq_some_iff.mp hget
        have hdrop := List.drop_eq_getElem_cons hlt
        rw [hc] at hdrop
        by_cases hspace : isspace c = true
        · have hturn : skipTurn text colon = .next [] (colon + 1) := by
            rw [skipTurn, hget]
            exact if_pos hspace
          obtain ⟨last, hloop, hlast⟩ := ih (colon + 1) (by omega)
          refine ⟨last, ?_, ?_⟩
          · rw [loop_next hturn, hloop]
            rfl
          · rw [hlast, hdrop, List.dropWhile_cons_of_pos hspace]
        · have hturn : skipTurn text colon = .stop [] colon := by
            rw [skipTurn, hget]
            exact if_neg hspace
          exact ⟨colon, loop_stop hturn fuel, by rw [hdrop, List.dropWhile_cons_of_neg hspace]⟩

theorem loop_resizeTurn {value : Bytes} {fuel : Nat} (hfuel : value.length < fuel) :
    loop resizeTurn fuel value = some ([], value.rdropWhile isspace) := by
  induction fuel generalizing value with
  | zero => omega
  | succ fuel ih =>
      rcases List.eq_nil_or_concat value with rfl | ⟨front, c, rfl⟩
      · exact loop_stop rfl fuel
      · rw [List.concat_eq_append] at hfuel ⊢
        have hlen : (front ++ [c]).length - 1 = front.length := by simp
        have hget : (front ++ [c])[front.length]? = some c := by simp
        rw [List.length_append, List.length_singleton] at hfuel
        by_cases hspace : isspace c = true
        · have hturn : resizeTurn (front ++ [c]) = .next [] front := by
            rw [resizeTurn, hlen, hget, List.take_left]
            exact if_pos hspace
          rw [loop_next hturn, ih (by omega), List.rdropWhile_concat_pos _ _ _ hspace]
          rfl
        · have hturn : resizeTurn (front ++ [c]) = .stop [] (front ++ [c]) := by
            rw [resizeTurn, hlen, hget]
            exact if_neg hspace
          rw [loop_stop hturn, List.rdropWhile_concat_neg _ _ _ hspace]

/-- The loops end and leave the value that the model of `addHeader` stores. -/
theorem trimLoops_eq {text : Bytes} {fuel : Nat} (hfuel : text.length < fuel) :
    trimLoops fuel text = some (HttpRequest.trimValue text) := by
  obtain ⟨last, hskip, hlast⟩ := loop_skipTurn 0 (show text.length - 0 < fuel from hfuel)
  have hshort : (text.drop last).length < fuel := by
    rw [List.length_drop]
    omega
  rw [trimLoops, hskip, Option.bind_some, loop_resizeTurn hshort, hlast]
  rfl

theorem trimValue_eq_trimmed (value : Bytes) :
    HttpRequest.trimValue value = trimmed isspace value :=
  (trimmed_eq isspace value).symm

/-! ## The map -/

/-- The text of a header line before its first colon. -/
def fieldName (line : Bytes) : Bytes := line.takeWhile (· ≠ colon)

/-- The text of a header line after its first colon. -/
def fieldText (line : Bytes) : Bytes := (line.dropWhile (· ≠ colon)).drop 1

/-- The header of a name: the trimmed text of the last line for it, else empty. -/
def headerOf (fields : List Bytes) (name : Bytes) : Bytes :=
  match fields.reverse.find? fun line => fieldName line = name with
  | some line => trimmed isspace (fieldText line)
  | none => []

namespace HttpRequest

/-- What a line with a colon writes. -/
theorem addLine_of_colon (r : HttpRequest) {line : Bytes} (h : Http.colon ∈ line) :
    r.addLine line = r.addHeader (fieldName line) (fieldText line) := by
  rw [addLine, cut_singleton, if_pos h]
  rfl

theorem getHeader_addHeader (r : HttpRequest) (field value name : Bytes) :
    (r.addHeader field value).getHeader name =
      if field = name then trimmed isspace value else r.getHeader name := by
  rw [getHeader, addHeader, trimValue_eq_trimmed]
  by_cases hname : field = name
  · subst hname
    simp
  · rw [if_neg hname]
    simp [getHeader, Function.update_of_ne (Ne.symm hname)]

/-- A later line for the same name takes the place of an earlier one. -/
theorem headerOf_concat (fields : List Bytes) (line name : Bytes) :
    headerOf (fields ++ [line]) name =
      if fieldName line = name then trimmed isspace (fieldText line) else headerOf fields name := by
  rw [headerOf, List.reverse_append, List.reverse_singleton, List.singleton_append]
  by_cases hname : fieldName line = name
  · rw [List.find?_cons_of_pos (by simpa using hname), if_pos hname]
  · rw [List.find?_cons_of_neg (by simpa using hname), if_neg hname]
    rfl

theorem getHeader_foldl_addLine {r : HttpRequest} (hr : r.headers = fun _ => none)
    (fields : List Bytes) (hcolon : ∀ line ∈ fields, Http.colon ∈ line) (name : Bytes) :
    (fields.foldl addLine r).getHeader name = headerOf fields name := by
  -- from the last line backwards, as the map is overwritten
  induction fields using List.reverseRecOn with
  | nil => simp [getHeader, hr, headerOf]
  | append_singleton fields line ih =>
      have hline := hcolon line (List.mem_append_right _ (List.mem_singleton_self _))
      have hfields := ih fun l hl => hcolon l (List.mem_append_left _ hl)
      rw [List.foldl_append, List.foldl_cons, List.foldl_nil, addLine_of_colon _ hline,
        getHeader_addHeader, hfields, headerOf_concat]

end HttpRequest

/-! ## After parsing -/

namespace HttpContext

variable {κ : Type}

theorem getHeader_readInto (h : RequestHead) {r : HttpRequest} (hr : r.headers = fun _ => none)
    (t : Youth.Core.DateTime) (name : Bytes) :
    (h.readInto r t).getHeader name = headerOf h.fields name := by
  obtain ⟨method, version, path, query, hline⟩ := r.processRequestLine_writes h.requestLine
  refine HttpRequest.getHeader_foldl_addLine ?_ h.fields h.has_colon name
  rw [hline]
  exact hr

/-- One call with the whole head comes to its end and leaves the header map. -/
theorem parseRequest_headers (h : RequestHead) (c : HttpContext κ)
    (hc : c.state = .expectRequestLine) (hr : c.request.headers = fun _ => none) (rest : Bytes)
    (t : Youth.Core.DateTime) {events : List StollError} {q : Parser κ}
    (hq : c.parseRequest (h.bytes ++ rest) t = some (events, q)) :
    (events ≠ [] ∨ q.context.HeadersEnded) ∧
      ∀ name, q.context.request.getHeader name = headerOf h.fields name := by
  have hread := getHeader_readInto h hr t
  rw [parseRequest_head_eq h c hc] at hq
  rcases hlen : (h.readInto c.request t).initContentLength with e | r
  · rw [hlen] at hq
    obtain ⟨rfl, rfl⟩ := Prod.mk.inj (Option.some.inj hq)
    exact ⟨.inl (List.cons_ne_nil e []), hread⟩
  · rw [hlen] at hq
    obtain ⟨-, rfl⟩ := Prod.mk.inj (Option.some.inj hq)
    -- the length does not touch the map
    obtain ⟨n, rfl, -⟩ := initContentLength_writes hlen
    exact ⟨.inr (endHeaders_headersEnded c _), hread⟩

/-- **The header map.**  However a request whose header lines have a colon arrives at a new
    parser, the parser comes to the end of the head, and then `getHeader` gives the trimmed
    text of the last line for the name, or nothing.  `addHeader`'s loops trim as
    `string::trimmed` does. -/
theorem header_map_meaning (h : RequestHead) (c : HttpContext κ)
    (hc : c.state = .expectRequestLine) (hr : c.request.headers = fun _ => none)
    (reads : List Read) (rest : Bytes) (hreads : received reads = h.bytes ++ rest) :
    (∃ f, feedHeaders c [] reads = some f ∧
      (f.events ≠ [] ∨ f.parser.context.HeadersEnded) ∧
      ∀ name, f.parser.context.request.getHeader name = headerOf h.fields name) ∧
    ∀ value fuel, value.length < fuel → trimLoops fuel value = some (trimmed isspace value) := by
  refine ⟨?_, ?_⟩
  · obtain ⟨f, q, hf, hq, hparser⟩ := feedHeaders_parseRequest (c := c) (.inl hc) reads 0
    rw [hreads] at hq
    obtain ⟨hends, hmap⟩ := parseRequest_headers h c hc hr rest 0 hq
    -- the two parsers differ in the receive time alone
    have hstate := congrArg (fun p : Parser κ => p.context.state) hparser
    have hheaders := congrArg (fun p : Parser κ => p.context.request.headers) hparser
    refine ⟨f, hf, ?_, fun name => ?_⟩
    · rwa [HeadersEnded, show q.context.state = f.parser.context.state from hstate] at hends
    · rw [← hmap name, HttpRequest.getHeader, HttpRequest.getHeader,
        show q.context.request.headers = f.parser.context.request.headers from hheaders]
  · intro value fuel hfuel
    rw [trimLoops_eq hfuel, trimValue_eq_trimmed]

/-- A head with two lines for `A`, and blanks around the values. -/
def twoForA : RequestHead where
  requestLine := ascii "GET / HTTP/1.0".toList
  fields := [ascii "A: 1".toList, ascii "B: \t x y ".toList, ascii "A:2 ".toList]
  accepted := by decide +kernel
  one_line := by decide +kernel
  has_colon := by decide +kernel

/-- It comes in three reads, the first of which ends inside a line. -/
theorem header_map_meaning_twoForA :
    ∃ f, feedHeaders ({} : HttpContext Unit) [] [⟨ascii "GET / HTTP/1.0\r\nA: ".toList, 0⟩,
        ⟨ascii "1\r\nB: \t x y \r".toList, 1⟩, ⟨ascii "\nA:2 \r\n\r\n".toList, 2⟩] = some f ∧
      (f.events ≠ [] ∨ f.parser.context.HeadersEnded) ∧
      f.parser.context.request.getHeader (ascii "A".toList) = ascii "2".toList ∧
      f.parser.context.request.getHeader (ascii "B".toList) = ascii "x y".toList ∧
      f.parser.context.request.getHeader (ascii "C".toList) = [] := by
  obtain ⟨⟨f, hf, hended, hget⟩, -⟩ := header_map_meaning twoForA ({} : HttpContext Unit) rfl rfl
    [⟨ascii "GET / HTTP/1.0\r\nA: ".toList, 0⟩, ⟨ascii "1\r\nB: \t x y \r".toList, 1⟩,
      ⟨ascii "\nA:2 \r\n\r\n".toList, 2⟩] [] (by decide +kernel)
  refine ⟨f, hf, hended, ?_, ?_, ?_⟩
  · rw [hget]
    decide +kernel
  · rw [hget]
    decide +kernel
  · rw [hget]
    decide +kernel

end HttpContext
end Youth.Http
