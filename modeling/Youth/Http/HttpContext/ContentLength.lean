/-
  Youth.Http.HttpContext.ContentLength

  What becomes of the value of a `Content-Length` header.

  `initContentLength` gives it to `std::stoll`, whose exceptions nobody catches, which
  reads over white space and a sign and stops at the first character that is no digit;
  the result is stored as a `size_t`.  `parseRequest` returns false for a bad request
  line alone.  So a value is handled as it should be if and only if nothing is wrong with
  it (`content_length_validated_iff`).
-/

import Youth.Http.HttpContext.HeaderPhase

namespace Youth.Http

open Youth.Lib Youth.Net
open Youth.Core (DateTime)

variable {κ : Type}

/-- A value that denotes a length: digits, and a number that is a `long long`. -/
def IsLength (v : Bytes) : Prop := v ≠ [] ∧ (∀ d ∈ v, isdigit d = true) ∧ decimal v < 2 ^ 63

instance (v : Bytes) : Decidable (IsLength v) := inferInstanceAs (Decidable (_ ∧ _ ∧ _))

theorem isspace_of_isdigit {d : UInt8} (h : isdigit d = true) : isspace d = false := by
  simp only [isdigit, Bool.and_eq_true, decide_eq_true_eq, UInt8.le_iff_toNat_le] at h
  obtain ⟨hlo, -⟩ := h
  have hne : d ≠ 32 := by
    intro heq
    rw [heq] at hlo
    exact absurd hlo (by decide)
  have hgt : ¬d ≤ 13 := by
    rw [UInt8.le_iff_toNat_le]
    have h48 : (48 : UInt8).toNat = 48 := rfl
    have h13 : (13 : UInt8).toNat = 13 := rfl
    omega
  simp [isspace, hne, hgt]

/-- A digit is no sign. -/
theorem takeSign_of_isdigit {d : UInt8} (h : isdigit d = true) (s : Bytes) :
    takeSign (d :: s) = (false, d :: s) := by
  have hminus : d ≠ 45 := by
    rintro rfl
    exact absurd h (by decide)
  have hplus : d ≠ 43 := by
    rintro rfl
    exact absurd h (by decide)
  rw [takeSign]
  · exact fun _ heq => hminus (List.cons.inj heq).1
  · exact fun _ heq => hplus (List.cons.inj heq).1

/-- `std::stoll` reads a length as it is. -/
theorem stoll_of_isLength {v : Bytes} (h : IsLength v) : stoll v = .ok (decimal v : Int) := by
  obtain ⟨hne, hdigits, hlt⟩ := h
  obtain ⟨d, s, rfl⟩ := List.exists_cons_of_ne_nil hne
  have hd := hdigits d List.mem_cons_self
  have hskip : (d :: s).dropWhile isspace = d :: s := by
    rw [List.dropWhile_cons, isspace_of_isdigit hd]
    rfl
  have htake : (d :: s).takeWhile isdigit = d :: s := List.takeWhile_eq_self_iff.mpr hdigits
  have hrange : longLong (decimal (d :: s)) = .ok (decimal (d :: s) : Int) := by
    rw [longLong, if_neg (by omega)]
  simp only [stoll, hskip, takeSign_of_isdigit hd, htake, List.cons_ne_nil, if_false,
    Bool.false_eq_true, hrange]

namespace HttpRequest

/-- `contentLength()`: `initContentLength`, then `m_content_length`. -/
def readContentLength (r : HttpRequest) : Except StollError Nat :=
  r.initContentLength.map (·.contentLength)

theorem readContentLength_setReceiveTime (r : HttpRequest) (s : DateTime) :
    (r.setReceiveTime s).readContentLength = r.readContentLength := by
  rw [readContentLength, readContentLength, HttpContext.initContentLength_setReceiveTime]
  rcases r.initContentLength with e | r' <;> rfl

/-- A length in the header is used unless there is one already. -/
theorem readContentLength_of_isLength {r : HttpRequest} {v : Bytes}
    (hv : r.headers contentLengthField = some v) (h : IsLength v) :
    r.readContentLength = .ok (if 0 < r.contentLength then r.contentLength else decimal v) := by
  have hget : r.getHeader contentLengthField = v := by rw [getHeader, hv, Option.getD_some]
  by_cases hpos : 0 < r.contentLength
  · rw [readContentLength, initContentLength, if_pos hpos, if_pos hpos]
    rfl
  · have hsize : sizeOfInt (decimal v : Int) = decimal v := sizeOfInt_natCast (by have := h.2.2; omega)
    simp only [readContentLength, initContentLength, hpos, if_false, hget, h.1, stoll_of_isLength h,
      Except.map, hsize]

end HttpRequest

namespace HttpContext

/-- What should become of the value `v` when the reads bring a head with it: a length is
    what `contentLength()` returns, anything else is refused, and nothing is raised. -/
def LengthValidated (c : HttpContext κ) (v : Bytes) (reads : List Read) : Prop :=
  ∀ f, feedHeaders c [] reads = some f → f.events = [] ∧
    if IsLength v then
      f.parser.ok = true ∧ f.parser.context.request.readContentLength = .ok (decimal v)
    else f.parser.ok = false

/-- `parseRequest` never returns false for a head. -/
theorem feedHeaders_head_ok (h : RequestHead) {c : HttpContext κ} (hc : c.state = .expectRequestLine)
    {reads : List Read} {rest : Bytes} (hreads : received reads = h.bytes ++ rest) :
    ∃ f, feedHeaders c [] reads = some f ∧ f.parser.ok = true ∧
      ∀ r, (h.readInto c.request 0).initContentLength = .ok r →
        f.events = [] ∧ f.parser.context.request.readContentLength = r.readContentLength := by
  -- the reads give what one call on all their bytes does, up to the time of receipt
  obtain ⟨f, q, hf, hq, hparser⟩ := feedHeaders_parseRequest (c := c) (.inl hc) reads 0
  have hok : q.ok = f.parser.ok := (congrArg Parser.ok hparser :)
  have hrequest : q.context.request.setReceiveTime 0 =
      f.parser.context.request.setReceiveTime 0 :=
    (congrArg (fun p : Parser κ => p.context.request) hparser :)
  have hread : q.context.request.readContentLength =
      f.parser.context.request.readContentLength := by
    rw [← HttpRequest.readContentLength_setReceiveTime _ 0, hrequest,
      HttpRequest.readContentLength_setReceiveTime]
  rw [hreads, parseRequest_head_eq h c hc] at hq
  refine ⟨f, hf, ?_, ?_⟩
  · -- also where `std::stoll` raises, `ok` is still true
    rcases hlen : (h.readInto c.request 0).initContentLength with e | r
    · simp only [hlen, Option.some.injEq, Prod.mk.injEq] at hq
      rw [← hok, ← hq.2]
    · simp only [hlen, Option.some.injEq, Prod.mk.injEq] at hq
      rw [← hok, ← hq.2]
  · intro r hr
    simp only [hr, Option.some.injEq, Prod.mk.injEq] at hq
    refine ⟨hq.1.symm, ?_⟩
    rw [← hread, ← hq.2]
    rfl

/-- A head with a length gives it to the request, unless there is one already; asking again
    does not change it. -/
theorem length_of_head (h : RequestHead) {v : Bytes}
    (hv : (h.readInto {} 0).headers HttpRequest.contentLengthField = some v) (hvalid : IsLength v)
    {r₀ : HttpRequest} (hr₀ : r₀.headers = fun _ => none) :
    ∃ r, (h.readInto r₀ 0).initContentLength = .ok r ∧
      r.contentLength = (if 0 < r₀.contentLength then r₀.contentLength else decimal v) ∧
      r.readContentLength = .ok r.contentLength := by
  -- of an old request without headers only the length shows through
  obtain ⟨method, version, path, query, hinto⟩ := h.readInto_eq r₀ 0 hr₀
  have hheader : (h.readInto r₀ 0).headers HttpRequest.contentLengthField = some v := by
    rw [hinto]
    exact hv
  have hold : (h.readInto r₀ 0).contentLength = r₀.contentLength := by rw [hinto]
  have hread := HttpRequest.readContentLength_of_isLength hheader hvalid
  rw [hold] at hread
  rcases hlen : (h.readInto r₀ 0).initContentLength with e | r
  · rw [HttpRequest.readContentLength, hlen] at hread
    cases hread
  · rw [HttpRequest.readContentLength, hlen] at hread
    have hk : r.contentLength = if 0 < r₀.contentLength then r₀.contentLength else decimal v :=
      Except.ok.inj hread
    obtain ⟨n, hn, -⟩ := initContentLength_writes hlen
    have hrheader : r.headers HttpRequest.contentLengthField = some v := by
      rw [hn]
      exact hheader
    refine ⟨r, rfl, hk, ?_⟩
    -- a positive length is kept, and a zero is read from the same header again
    rw [HttpRequest.readContentLength_of_isLength hrheader hvalid]
    congr 1
    split_ifs at hk ⊢ <;> omega

/-- **`Content-Length` is validated** if and only if it is a length, and no other length is
    left from an earlier request. -/
theorem content_length_validated_iff (h : RequestHead) (v : Bytes)
    (hv : (h.readInto {} 0).headers HttpRequest.contentLengthField = some v) (c : HttpContext κ)
    (hc : c.state = .expectRequestLine) (hr : c.request.headers = fun _ => none) (reads : List Read)
    (rest : Bytes) (hreads : received reads = h.bytes ++ rest) :
    LengthValidated c v reads ↔
      IsLength v ∧ (c.request.contentLength = 0 ∨ c.request.contentLength = decimal v) := by
  obtain ⟨f, hf, hok, hlength⟩ := feedHeaders_head_ok h hc hreads
  by_cases hvalid : IsLength v
  · -- the length that is announced, or the one that is left
    obtain ⟨r, hinit, hk, hasked⟩ := length_of_head h hv hvalid hr
    obtain ⟨hevents, hagain⟩ := hlength r hinit
    have hprop : LengthValidated c v reads ↔ r.contentLength = decimal v := by
      constructor
      · intro hprop
        have hreturned := (hprop f hf).2
        rw [if_pos hvalid, hagain, hasked] at hreturned
        exact Except.ok.inj hreturned.2
      · intro heq g hg
        rw [hf] at hg
        cases hg
        rw [if_pos hvalid, hagain, hasked, heq]
        exact ⟨hevents, hok, rfl⟩
    rw [hprop, hk]
    constructor
    · intro heq
      refine ⟨hvalid, ?_⟩
      split_ifs at heq <;> omega
    · rintro ⟨-, hold | hold⟩
      · rw [hold, if_neg (by omega)]
      · split_ifs <;> omega
  · -- nothing else is refused
    constructor
    · intro hprop
      have hrefused := (hprop f hf).2
      rw [if_neg hvalid, hok] at hrefused
      cases hrefused
    · intro hcond
      exact absurd hcond.1 hvalid

end HttpContext

/-! ## Two heads -/

namespace RequestHead

/-- `POST / HTTP/1.1` with `Content-Length: abc` -/
def postAbc : RequestHead where
  requestLine := postOne.requestLine
  fields := [HttpRequest.contentLengthField ++ ascii ": abc".toList]
  accepted := by decide +kernel
  one_line := by decide +kernel
  has_colon := by decide +kernel

end RequestHead

namespace HttpContext

theorem content_length_validated_iff_postOne :
    (RequestHead.postOne.readInto {} 0).headers HttpRequest.contentLengthField = some [49] ∧
      LengthValidated ({} : HttpContext Unit) [49] [⟨RequestHead.postOne.bytes, 0⟩] := by
  have hv : (RequestHead.postOne.readInto {} 0).headers HttpRequest.contentLengthField = some [49] := by
    decide +kernel
  refine ⟨hv, ?_⟩
  have hiff := content_length_validated_iff RequestHead.postOne [49] hv ({} : HttpContext Unit) rfl rfl
    [⟨RequestHead.postOne.bytes, 0⟩] [] rfl
  have hlength : IsLength [49] := by decide +kernel
  exact hiff.mpr ⟨hlength, .inl rfl⟩

/-- `abc` makes `parseRequest` raise. -/
theorem postAbc_not_validated :
    (RequestHead.postAbc.readInto {} 0).headers HttpRequest.contentLengthField =
        some (ascii "abc".toList) ∧
      ¬LengthValidated ({} : HttpContext Unit) (ascii "abc".toList) [⟨RequestHead.postAbc.bytes, 0⟩] := by
  refine ⟨by decide +kernel, ?_⟩
  intro h
  have hfed : (feedHeaders ({} : HttpContext Unit) [] [⟨RequestHead.postAbc.bytes, 0⟩]).map
      (·.events) = some [.invalidArgument] := by decide +kernel
  obtain ⟨f, hf, hevents⟩ := Option.map_eq_some_iff.mp hfed
  have hquiet := (h f hf).1
  rw [hevents] at hquiet
  cases hquiet

end HttpContext
end Youth.Http
