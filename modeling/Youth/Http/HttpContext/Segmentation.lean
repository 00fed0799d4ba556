/-
  Youth.Http.HttpContext.Segmentation

  How `parseRequest` depends on where the input is cut.

  In the states before the body the parser reads whole lines.  A call that runs
  out of lines leaves a state that stands for all it has read: going on from
  there is parsing the whole again (`parseRequest_waiting`).  A call that ends
  for another reason ends the same way with more input behind it
  (`parseRequest_ended`).  Both are for one receive time, which the parser only
  copies; `parseRequest_eraseTime` takes it out of the comparison.
-/

import Youth.Http.HttpContext.Basic

namespace Youth.Http.HttpContext

open Youth.Lib
open Youth.Core (DateTime)

variable {κ : Type}

/-- The parser is still before the body. -/
def Heading (c : HttpContext κ) : Prop := c.state = .expectRequestLine ∨ c.state = .expectHeaders

instance (c : HttpContext κ) : Decidable c.Heading := inferInstanceAs (Decidable (_ ∨ _))

theorem Heading.ne_gotAll {c : HttpContext κ} (h : c.Heading) : c.state ≠ .gotAll := by
  rcases h with h | h <;> simp [h]

/-- The call has read all the lines there are, and found nothing wrong with them. -/
def Waiting (events : List StollError) (p : Parser κ) : Prop :=
  events = [] ∧ p.ok = true ∧ p.context.Heading

instance (events : List StollError) (p : Parser κ) : Decidable (Waiting events p) :=
  inferInstanceAs (Decidable (_ ∧ _ ∧ _))

/-- The same parser with more input behind it. -/
def Parser.feed (p : Parser κ) (more : Bytes) : Parser κ := { p with buf := p.buf ++ more }

/-! ## One turn -/

/-- What a turn before the body does, with `more` input behind it as well: it has no
    line and waits, or it takes the same turn and leaves the input alone. -/
theorem turn_feed (t : DateTime) {p : Parser κ} (hp : p.context.Heading) (hok : p.ok = true) :
    p.turn t = .stop [] p ∨
    (∃ q, p.turn t = .next [] q ∧ q.context.Heading ∧ q.ok = true ∧
      ∀ more, (p.feed more).turn t = .next [] (q.feed more)) ∨
    (∃ events q, p.turn t = .stop events q ∧ ¬Waiting events q ∧
      ∀ more, (p.feed more).turn t = .stop events (q.feed more)) := by
  rcases hcut : cut crlf p.buf with _ | ⟨line, rest⟩
  · exact .inl (turn_no_line hp hcut)
  -- a complete line is cut at the same place whatever comes behind it
  have hfeed : ∀ more, cut crlf (p.feed more).buf = some (line, rest ++ more) :=
    fun more => cut_append hcut more
  rcases hp with hp | hp
  · rcases hline : (p.context.request.processRequestLine line).1 with _ | _
    · refine .inr (.inr ⟨[], _, turn_refused hp hcut hline, ?_, fun more => ?_⟩)
      · simp [Waiting]
      · exact turn_refused (p := p.feed more) hp (hfeed more) hline
    · refine .inr (.inl ⟨_, turn_requestLine hp hcut hline, .inr rfl, rfl, fun more => ?_⟩)
      exact turn_requestLine (p := p.feed more) hp (hfeed more) hline
  · rcases hcolon : cut [colon] line with _ | ⟨field, value⟩
    · rcases hlen : p.context.request.initContentLength with e | r
      · refine .inr (.inr ⟨[e], p, turn_raised hp hcut hcolon hlen, ?_, fun more => ?_⟩)
        · simp [Waiting]
        · exact turn_raised (p := p.feed more) hp (hfeed more) hcolon hlen
      · refine .inr (.inr ⟨[], _, turn_endHeaders hp hcut hcolon hlen, ?_, fun more => ?_⟩)
        · rintro ⟨-, -, hstate⟩
          by_cases hzero : r.contentLength = 0 <;> simp [Heading, endHeaders, hzero] at hstate
        · exact turn_endHeaders (p := p.feed more) hp (hfeed more) hcolon hlen
    · refine .inr (.inl ⟨_, turn_header hp hcut hcolon, .inr hp, hok, fun more => ?_⟩)
      exact turn_header (p := p.feed more) hp (hfeed more) hcolon

/-! ## The loop -/

variable {t : DateTime} {p q : Parser κ} {events : List StollError}

/-- The first turn of a loop that goes on can be left out. -/
theorem loops_next_iff {u r : Parser κ} (h : p.turn t = .next [] u) :
    Loops (Parser.turn t) p events r ↔ Loops (Parser.turn t) u events r := by
  constructor
  · intro hloop
    rcases hloop with hturn | ⟨hturn, hrest⟩
    · rw [h] at hturn
      cases hturn
    · rw [h] at hturn
      cases hturn
      exact hrest
  · intro hloop
    exact Loops.next h hloop

/-- The two ways a loop that starts before the body ends. -/
theorem loops_feed (hloop : Loops (Parser.turn t) p events q) (hp : p.context.Heading)
    (hok : p.ok = true) :
    (Waiting events q ∧ ∀ more made r,
      Loops (Parser.turn t) (p.feed more) made r ↔ Loops (Parser.turn t) (q.feed more) made r) ∨
    (¬Waiting events q ∧ ∀ more, Loops (Parser.turn t) (p.feed more) events (q.feed more)) := by
  -- Over the turns of the loop; each is one of the three kinds of `turn_feed`
  induction hloop with
  | stop hturn =>
      obtain hstop | ⟨u, hnext, -⟩ | ⟨made, u, hstop, hended, hfeed⟩ := turn_feed t hp hok
      · rw [hstop] at hturn
        cases hturn
        exact .inl ⟨⟨rfl, hok, hp⟩, fun _ _ _ => Iff.rfl⟩
      · rw [hnext] at hturn
        cases hturn
      · rw [hstop] at hturn
        cases hturn
        exact .inr ⟨hended, fun more => Loops.stop (hfeed more)⟩
  | next hturn hrest ih =>
      obtain hstop | ⟨u, hnext, hu, huok, hfeed⟩ | ⟨made, u, hstop, -⟩ := turn_feed t hp hok
      · rw [hstop] at hturn
        cases hturn
      · rw [hnext] at hturn
        cases hturn
        rcases ih hu huok with ⟨hwait, hiff⟩ | ⟨hended, hfed⟩
        · exact .inl ⟨hwait, fun more made r =>
            (loops_next_iff (hfeed more)).trans (hiff more made r)⟩
        · exact .inr ⟨hended, fun more => Loops.next (hfeed more) (hfed more)⟩
      · rw [hstop] at hturn
        cases hturn

/-! ## One call -/

variable {c : HttpContext κ} {buf : Bytes}

/-- Two calls that end alike are equal. -/
theorem parseRequest_congr {c' : HttpContext κ} {buf' : Bytes} (hc : c.state ≠ .gotAll)
    (hc' : c'.state ≠ .gotAll)
    (h : ∀ events r, Loops (Parser.turn t) ⟨c, buf, true⟩ events r ↔
      Loops (Parser.turn t) ⟨c', buf', true⟩ events r) :
    c.parseRequest buf t = c'.parseRequest buf' t := by
  obtain ⟨⟨events, r⟩, hr⟩ := Option.isSome_iff_exists.mp (parseRequest_isSome_iff.mpr hc')
  rw [hr, parseRequest_eq_some_iff hc, h]
  exact (parseRequest_eq_some_iff hc').mp hr

/-- Without input a call waits. -/
theorem parseRequest_nil (hc : c.Heading) : c.parseRequest [] t = some ([], ⟨c, [], true⟩) := by
  have hcut : cut crlf [] = none := by decide
  exact (parseRequest_eq_some_iff hc.ne_gotAll).mpr (Loops.stop (turn_no_line hc hcut))

/-- A call that waits: going on from where it stands is parsing the whole. -/
theorem parseRequest_waiting (hc : c.Heading) (h : c.parseRequest buf t = some (events, p))
    (hwait : Waiting events p) (more : Bytes) :
    c.parseRequest (buf ++ more) t = p.context.parseRequest (p.buf ++ more) t := by
  have hloop := (parseRequest_eq_some_iff hc.ne_gotAll).mp h
  rcases loops_feed hloop hc rfl with ⟨⟨-, hok, hp⟩, hiff⟩ | ⟨hended, -⟩
  · refine parseRequest_congr hc.ne_gotAll hp.ne_gotAll fun made r => ?_
    have hfed : p.feed more = ⟨p.context, p.buf ++ more, true⟩ := by rw [← hok]; rfl
    exact hfed ▸ hiff more made r
  · exact absurd hwait hended

/-- A call that ends the headers, refuses or raises does so with more input as well. -/
theorem parseRequest_ended (hc : c.Heading) (h : c.parseRequest buf t = some (events, p))
    (hended : ¬Waiting events p) (more : Bytes) :
    c.parseRequest (buf ++ more) t = some (events, p.feed more) := by
  have hloop := (parseRequest_eq_some_iff hc.ne_gotAll).mp h
  rcases loops_feed hloop hc rfl with ⟨hwait, -⟩ | ⟨-, hfed⟩
  · exact absurd hwait hended
  · exact (parseRequest_eq_some_iff hc.ne_gotAll).mpr (hfed more)

/-! ## The receive time -/

/-- The context without its receive time. -/
def eraseTime (c : HttpContext κ) : HttpContext κ :=
  { c with request := c.request.setReceiveTime 0 }

def Parser.eraseTime (p : Parser κ) : Parser κ := { p with context := p.context.eraseTime }

theorem setTarget_setReceiveTime (r : HttpRequest) (target : Bytes) (s : DateTime) :
    (r.setReceiveTime s).setTarget target = (r.setTarget target).setReceiveTime s := by
  rcases h : cut [question] target with _ | ⟨path, query⟩ <;>
    simp only [HttpRequest.setTarget, h] <;> rfl

theorem setVersionOf_setReceiveTime (r : HttpRequest) (word : Bytes) (s : DateTime) :
    (r.setReceiveTime s).setVersionOf word =
      ((r.setVersionOf word).1, (r.setVersionOf word).2.setReceiveTime s) := by
  simp only [HttpRequest.setVersionOf]
  split_ifs <;> rfl

theorem processRequestLine_setReceiveTime (r : HttpRequest) (line : Bytes) (s : DateTime) :
    (r.setReceiveTime s).processRequestLine line =
      ((r.processRequestLine line).1, (r.processRequestLine line).2.setReceiveTime s) := by
  have hmethod : ∀ m, (r.setReceiveTime s).setMethod m =
      ((r.setMethod m).1, (r.setMethod m).2.setReceiveTime s) := fun _ => rfl
  rcases hline : cut [space] line with _ | ⟨method, rest⟩
  · simp only [HttpRequest.processRequestLine, hline]
  rcases hrest : cut [space] rest with _ | ⟨target, version⟩
  · simp only [HttpRequest.processRequestLine, hline, hrest, hmethod]
    split <;> rfl
  · simp only [HttpRequest.processRequestLine, hline, hrest, hmethod, setTarget_setReceiveTime,
      setVersionOf_setReceiveTime]
    split <;> rfl

theorem initContentLength_setReceiveTime (r : HttpRequest) (s : DateTime) :
    (r.setReceiveTime s).initContentLength =
      r.initContentLength.map fun r => r.setReceiveTime s := by
  have hget : (r.setReceiveTime s).getHeader HttpRequest.contentLengthField =
      r.getHeader HttpRequest.contentLengthField := rfl
  have hlen : (r.setReceiveTime s).contentLength = r.contentLength := rfl
  simp only [HttpRequest.initContentLength, hget, hlen]
  by_cases hpos : 0 < r.contentLength
  · simp only [hpos, if_true, Except.map]
  by_cases hnone : r.getHeader HttpRequest.contentLengthField = []
  · simp only [hpos, hnone, if_true, if_false, Except.map]
  · simp only [hpos, hnone, if_false]
    rcases stoll (r.getHeader HttpRequest.contentLengthField) with e | n <;> rfl

/-- A turn copies the receive time and does nothing else with it. -/
theorem turn_eraseTime (t : DateTime) (p : Parser κ) :
    p.eraseTime.turn 0 = (p.turn t).map Parser.eraseTime := by
  obtain ⟨⟨state, r, context⟩, buf, ok⟩ := p
  have herase : (⟨⟨state, r, context⟩, buf, ok⟩ : Parser κ).eraseTime =
      ⟨⟨state, r.setReceiveTime 0, context⟩, buf, ok⟩ := rfl
  rw [herase]
  cases state with
  | expectRequestLine =>
      simp only [Parser.turn, Parser.expectRequestLine]
      rcases cut crlf buf with _ | ⟨line, rest⟩
      · rfl
      · simp only [processRequestLine_setReceiveTime]
        split <;> rfl
  | expectHeaders =>
      simp only [Parser.turn, Parser.expectHeaders]
      rcases cut crlf buf with _ | ⟨line, rest⟩
      · rfl
      rcases hcolon : cut [colon] line with _ | ⟨field, value⟩
      · simp only [hcolon, initContentLength_setReceiveTime]
        rcases r.initContentLength with e | r <;> rfl
      · simp only [hcolon]
        rfl
  | expectBody =>
      simp only [Parser.turn, Parser.expectBody, initContentLength_setReceiveTime]
      rcases r.initContentLength with e | r
      · rfl
      · have hlen : (r.setReceiveTime 0).contentLength = r.contentLength := rfl
        simp only [Except.map, hlen]
        split <;> rfl
  | gotAll => rfl

/-- The receive time has no influence on anything but itself. -/
theorem parseRequest_eraseTime (c : HttpContext κ) (buf : Bytes) (t : DateTime) :
    c.eraseTime.parseRequest buf 0 =
      (c.parseRequest buf t).map fun p => (p.1, p.2.eraseTime) :=
  loop_map (turn_eraseTime t) (buf.length + 1) ⟨c, buf, true⟩

/-! ## Standing for what has been read -/

/-- Before the end of the headers `m_content_length` and `m_readSize` are not written. -/
theorem turn_keeps (t : DateTime) {n m : Nat} (p : Parser κ)
    (hp : p.context.Heading → p.context.request.contentLength = n ∧ p.context.request.readSize = m)
    (hq : (p.turn t).state.context.Heading) :
    (p.turn t).state.context.request.contentLength = n ∧
      (p.turn t).state.context.request.readSize = m := by
  obtain ⟨⟨state, r, context⟩, buf, ok⟩ := p
  cases state with
  | expectRequestLine =>
      have hr := hp (.inl rfl)
      simp only [Parser.turn, Parser.expectRequestLine]
      rcases cut crlf buf with _ | ⟨line, rest⟩
      · exact hr
      · obtain ⟨_, _, _, _, hline⟩ := r.processRequestLine_writes line
        simp only [hline]
        split <;> exact hr
  | expectHeaders =>
      have hr := hp (.inr rfl)
      revert hq
      simp only [Parser.turn, Parser.expectHeaders]
      rcases cut crlf buf with _ | ⟨line, rest⟩
      · exact fun _ => hr
      rcases hcolon : cut [colon] line with _ | ⟨field, value⟩
      · simp only [hcolon]
        rcases r.initContentLength with e | r'
        · exact fun _ => hr
        · -- the headers end here
          intro hstate
          simp only [Heading, Turn.state] at hstate
          split at hstate <;> simp at hstate
      · simp only [hcolon]
        exact fun _ => hr
  | expectBody =>
      revert hq
      simp only [Parser.turn, Parser.expectBody]
      rcases r.initContentLength with e | r'
      · intro hstate
        simp [Heading, Turn.state] at hstate
      · simp only
        split
        · intro hstate
          simp [Heading, Turn.state] at hstate
        · intro hstate
          simp only [Heading, Turn.state] at hstate
          split at hstate <;> simp at hstate
  | gotAll =>
      simp [Parser.turn, Turn.state, Heading] at hq

/-- Going on from `c` with `buf` in the buffer is going on from `c₀` with `s`, the receive
    time apart. -/
structure StandsFor (c : HttpContext κ) (buf : Bytes) (c₀ : HttpContext κ) (s : Bytes) : Prop where
  heading : c.Heading
  sizes : c.request.contentLength = c₀.request.contentLength ∧
    c.request.readSize = c₀.request.readSize
  parse_eq : ∀ more,
    c.eraseTime.parseRequest (buf ++ more) 0 = c₀.eraseTime.parseRequest (s ++ more) 0

variable {c₀ : HttpContext κ} {s data : Bytes}

theorem StandsFor.refl (hc : c.Heading) (buf : Bytes) : StandsFor c buf c buf :=
  ⟨hc, ⟨rfl, rfl⟩, fun _ => rfl⟩

/-- The next call sees what a call on the whole would have seen. -/
theorem StandsFor.parse (h : StandsFor c buf c₀ s)
    (hp : c.parseRequest (buf ++ data) t = some (events, p)) :
    c₀.eraseTime.parseRequest (s ++ data) 0 = some (events, p.eraseTime) := by
  rw [← h.parse_eq, parseRequest_eraseTime c (buf ++ data) t, hp]
  rfl

/-- A call that waits stands for what it has read as well. -/
theorem StandsFor.wait (h : StandsFor c buf c₀ s)
    (hp : c.parseRequest (buf ++ data) t = some (events, p)) (hwait : Waiting events p) :
    StandsFor p.context p.buf c₀ (s ++ data) := by
  have hsizes := Loops.invariant
    (I := fun q : Parser κ => q.context.Heading →
      q.context.request.contentLength = c₀.request.contentLength ∧
      q.context.request.readSize = c₀.request.readSize)
    (turn_keeps t) (loops_of_loop hp) (fun _ => h.sizes)
  refine ⟨hwait.2.2, hsizes hwait.2.2, fun more => ?_⟩
  -- The same call without times, so that the two receive times need not agree
  have hheading : c.eraseTime.Heading := h.heading
  have hfirst : c.eraseTime.parseRequest (buf ++ data) 0 = some (events, p.eraseTime) := by
    rw [parseRequest_eraseTime c (buf ++ data) t, hp]
    rfl
  have hmore := parseRequest_waiting hheading hfirst hwait more
  rw [List.append_assoc, h.parse_eq, ← List.append_assoc] at hmore
  exact hmore.symm

end Youth.Http.HttpContext
