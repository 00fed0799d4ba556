/-
  Youth.Http.HttpServer.Rejected

  What becomes of a connection whose request line was refused.

  `parseRequest` leaves a bad request line in the buffer, and the request half written.
  The next call finds the same line first, whatever has come behind it, and refuses it
  again, since a line is judged by its text alone (`Rejected`).  So no later read is
  dispatched; and the first refusal has shut the connection down, so that the `400`s of
  the others are dropped by `send`.

  `Connection` is the server's view of a TCP connection: its reads go through `onMessage`,
  everything else that may happen to it is a step of `TcpConnection`.
-/

import Youth.Lib.Machine
import Youth.Http.HttpContext.HeaderPhase
import Youth.Http.HttpServer.Basic
import Youth.Net.TcpConnection.Closed

namespace Youth.Http

open Youth.Lib
open Youth.Core (DateTime)

variable {κ : Type}

namespace HttpContext

/-- The first line in the buffer is no request line. -/
structure Rejected (c : HttpContext κ) (buf : Bytes) : Prop where
  state : c.state = .expectRequestLine
  line : ∃ line rest, cut crlf buf = some (line, rest) ∧
    ∀ r : HttpRequest, (r.processRequestLine line).1 = false

variable {c : HttpContext κ} {buf : Bytes} {t : DateTime} {events : List StollError} {p : Parser κ}

/-- Behind the request line no turn refuses anything. -/
theorem turn_behind_requestLine (t : DateTime) (p : Parser κ)
    (h : p.ok = true ∧ p.context.state ≠ .expectRequestLine) :
    (p.turn t).state.ok = true ∧ (p.turn t).state.context.state ≠ .expectRequestLine := by
  obtain ⟨⟨state, r, context⟩, buf, ok⟩ := p
  obtain ⟨hok, hstate⟩ := h
  cases state with
  | expectRequestLine => exact absurd rfl hstate
  | expectHeaders =>
      simp only [Parser.turn, Parser.expectHeaders]
      rcases cut crlf buf with _ | ⟨line, rest⟩
      · exact ⟨hok, hstate⟩
      rcases hcolon : cut [colon] line with _ | ⟨field, value⟩
      · rcases r.initContentLength with e | r'
        · simp only [hcolon]
          exact ⟨hok, hstate⟩
        · simp only [hcolon, Turn.state_stop]
          refine ⟨hok, ?_⟩
          split <;> simp
      · simp only [hcolon]
        exact ⟨hok, hstate⟩
  | expectBody =>
      simp only [Parser.turn, Parser.expectBody]
      rcases r.initContentLength with e | r'
      · exact ⟨hok, hstate⟩
      · simp only
        split
        · exact ⟨hok, by simp⟩
        · refine ⟨hok, ?_⟩
          simp only [Turn.state_stop]
          split <;> simp
  | gotAll => exact ⟨hok, hstate⟩

/-- Only in front of a request line does a call return false. -/
theorem state_of_refused (h : c.parseRequest buf t = some (events, p)) (hok : p.ok = false) :
    c.state = .expectRequestLine := by
  by_contra hstate
  -- behind the request line no turn sets `ok` to false or goes back
  have hkeeps := Loops.invariant
    (I := fun q : Parser κ => q.ok = true ∧ q.context.state ≠ .expectRequestLine)
    (turn_behind_requestLine t) (loops_of_loop h) ⟨rfl, hstate⟩
  rw [hkeeps.1] at hok
  cases hok

/-- A call that returns false has taken nothing, and found a line that is no request line. -/
theorem rejected_of_refused (h : c.parseRequest buf t = some (events, p)) (hok : p.ok = false) :
    events = [] ∧ p.buf = buf ∧ Rejected p.context p.buf := by
  have hc := state_of_refused h hok
  have hloops := (parseRequest_eq_some_iff (by simp [hc])).mp h
  rcases hcut : cut crlf buf with _ | ⟨line, rest⟩
  · -- without a line the call waits
    rw [parseRequest_eq_some_iff (by simp [hc]) |>.mpr
      (Loops.stop (turn_no_line (p := ⟨c, buf, true⟩) (.inl hc) hcut))] at h
    cases h
    cases hok
  rcases hline : (c.request.processRequestLine line).1 with _ | _
  · rw [parseRequest_eq_some_iff (by simp [hc]) |>.mpr
      (Loops.stop (turn_refused (p := ⟨c, buf, true⟩) hc hcut hline))] at h
    cases h
    refine ⟨rfl, rfl, hc, line, rest, hcut, fun r => ?_⟩
    rw [← hline]
    exact HttpRequest.processRequestLine_fst _ _ _
  · -- an accepted line is not refused later
    rw [loops_next_iff (turn_requestLine (p := ⟨c, buf, true⟩) hc hcut hline)] at hloops
    have hkeeps := Loops.invariant
      (I := fun q : Parser κ => q.ok = true ∧ q.context.state ≠ .expectRequestLine)
      (turn_behind_requestLine t) hloops ⟨rfl, by simp⟩
    rw [hkeeps.1] at hok
    cases hok

/-- The same line is refused again, with anything behind it. -/
theorem Rejected.parseRequest (h : Rejected c buf) (more : Bytes) (t : DateTime) :
    ∃ p, c.parseRequest (buf ++ more) t = some ([], p) ∧ p.ok = false ∧ p.buf = buf ++ more ∧
      Rejected p.context p.buf := by
  obtain ⟨hstate, line, rest, hcut, hline⟩ := h
  have hcut' := cut_append hcut more
  refine ⟨_, (parseRequest_eq_some_iff (by simp [hstate])).mpr (Loops.stop
    (turn_refused (p := ⟨c, buf ++ more, true⟩) hstate hcut' (hline _))), rfl, rfl, ?_⟩
  exact ⟨hstate, line, rest ++ more, hcut', hline⟩

/-- Calls behind each of the reads: their results. -/
def laterCalls (c : HttpContext κ) (buf : Bytes) :
    List Read → Option (List (List StollError × Parser κ))
  | [] => some []
  | read :: reads =>
    (c.parseRequest (buf ++ read.data) read.receiveTime).bind fun p =>
      (laterCalls p.2.context p.2.buf reads).map fun later => p :: later

theorem Rejected.laterCalls (h : Rejected c buf) (reads : List Read) :
    ∃ later, HttpContext.laterCalls c buf reads = some later ∧ later.length = reads.length ∧
      ∀ p ∈ later, p.1 = [] ∧ p.2.ok = false ∧ p.2.context.state = .expectRequestLine := by
  induction reads generalizing c buf with
  | nil => exact ⟨[], rfl, rfl, by simp⟩
  | cons read reads ih =>
      obtain ⟨p, hp, hok, -, hrejected⟩ := h.parseRequest read.data read.receiveTime
      obtain ⟨later, hlater, hlength, hall⟩ := ih hrejected
      refine ⟨([], p) :: later, ?_, by simp [hlength], ?_⟩
      · rw [HttpContext.laterCalls, hp, Option.bind_some, hlater]
        rfl
      · exact List.forall_mem_cons.mpr ⟨⟨rfl, hok, hrejected.state⟩, hall⟩

end HttpContext

namespace HttpServer

open HttpContext

variable {c c' : HttpContext κ} {buf rest : Bytes} {m : Message κ} {events : List Event}

/-- A `400` is all that becomes of a read whose request line is refused. -/
theorem rejected_of_badRequest (h : onMessage c buf m = some (events, c', rest))
    (hbad : .badRequest ∈ events) : events = [.badRequest] ∧ rest = buf ∧ Rejected c' rest := by
  obtain ⟨⟨raised, p⟩, hp, hmessage⟩ := Option.map_eq_some_iff.mp h
  rcases raised with _ | ⟨e, raised⟩
  · have hok : p.ok = false := by
      by_contra hok
      rw [Bool.not_eq_false] at hok
      simp only [hok, if_true, List.nil_append] at hmessage
      split at hmessage
      · cases hmessage
        simp at hbad
      · split at hmessage
        · cases hmessage
          simp at hbad
        · cases hmessage
          simp at hbad
    -- the context is in front of a request line, so neither callback is called
    obtain ⟨-, hbuf, hrejected⟩ := rejected_of_refused hp hok
    have hbody : p.context.gotBody = false := by simp [gotBody, hrejected.state]
    have hall : p.context.gotAll = false := by simp [gotAll, hrejected.state]
    simp only [hok, hbody, hall, Bool.false_eq_true, if_false] at hmessage
    cases hmessage
    exact ⟨rfl, hbuf, hrejected⟩
  · cases hmessage
    simp at hbad

theorem onMessage_rejected (h : Rejected c buf) (m : Message κ) (more : Bytes) :
    ∃ c', onMessage c (buf ++ more) m = some ([.badRequest], c', buf ++ more) ∧
      Rejected c' (buf ++ more) := by
  obtain ⟨p, hp, hok, hbuf, hrejected⟩ := h.parseRequest more m.receiveTime
  have hbody : p.context.gotBody = false := by simp [gotBody, hrejected.state]
  have hall : p.context.gotAll = false := by simp [gotAll, hrejected.state]
  refine ⟨p.context, ?_, hbuf ▸ hrejected⟩
  simp [onMessage, hp, hok, hbody, hall, hbuf]

/-! ## The connection -/

open Youth.Net
open Youth.Net.TcpConnection (Call)

/-- `HTTP/1.1 400 Bad Request` -/
def badRequestResponse : Bytes := ascii "HTTP/1.1 400 Bad Request\r\n\r\n".toList

/-- A TCP connection with the `HttpContext` that is stored in it. -/
structure Connection (κ : Type) where
  tcp : TcpConnection.World
  context : HttpContext κ := {}
  log : List Event := []
  /-- Ghost: how many `400`s were sent, that is, found the connection `kConnected`. -/
  refusals : Nat := 0

namespace Connection

/-- The calls that `onMessage` makes on the connection: it takes what it has read out of the
    input buffer, refuses, and the callbacks do what they do. -/
def messageCalls (buf rest : Bytes) (events : List Event) (r : WriteResult) (calls : List Call) :
    List Call :=
  (if rest.length < buf.length then [.retrieve (buf.length - rest.length)] else []) ++
    (if .badRequest ∈ events then [.send badRequestResponse r, .shutdown] else []) ++
    (if .onReadyRead ∈ events then calls else [])

/-- The actions of a connection; `onConnection` makes no calls when it goes down. -/
inductive Action (κ : Type)
  /-- A read that brings `m`; `calls` are those of the callbacks, `r` is for the `400`. -/
  | message (revents : Revents) (m : Message κ) (r : WriteResult) (calls : List Call)
      (write : WriteResult)
  /-- A read that brings nothing: the peer has closed. -/
  | readEnd (revents : Revents) (write : WriteResult)
  | readError (revents : Revents) (errno : Nat) (write : WriteResult)
  /-- Anything else that happens to the connection. -/
  | tcp (a : TcpConnection.Action)

/-- `onConnection` stores a new context when the connection comes up. -/
def contextBehind (c : HttpContext κ) : TcpConnection.Action → HttpContext κ
  | .connectEstablished _ => {}
  | _ => c

def step (w : Connection κ) : Action κ → Option (Connection κ)
  | .message revents m r calls write =>
    if TcpConnection.reads revents ∧ m.data ≠ [] ∧ calls.all Call.leavesInput = true then
      let buf := (w.tcp.conn.inputBuffer.readFd (.ok m.data)).val.2.readable
      (onMessage w.context buf m).bind fun x =>
        (TcpConnection.step w.tcp (.handleEvent revents
          { read := .ok m.data, readCalls := messageCalls buf x.2.2 x.1 r calls
            write := write })).map fun tcp =>
              { tcp := tcp
                context := x.2.1
                log := w.log ++ x.1
                refusals := w.refusals +
                  if .badRequest ∈ x.1 ∧ (w.tcp.hungUp revents []).conn.state = .kConnected then 1
                  else 0 }
    else none
  | .readEnd revents write =>
    if TcpConnection.reads revents then
      (TcpConnection.step w.tcp (.handleEvent revents { read := .ok [], write := write })).map
        fun tcp => { w with tcp := tcp }
    else none
  | .readError revents errno write =>
    if TcpConnection.reads revents then
      (TcpConnection.step w.tcp (.handleEvent revents { read := .error errno, write := write })).map
        fun tcp => { w with tcp := tcp }
    else none
  | .tcp a =>
    if a.leavesInput = true then
      (TcpConnection.step w.tcp a).map
        fun tcp => { w with tcp := tcp, context := contextBehind w.context a }
    else none

/-- Once a request line has been refused, nothing but refusals follows, and the bad line is
    first in the buffer; a `400` that was sent has closed the connection. -/
structure Refusing (w : Connection κ) : Prop where
  buffer : w.tcp.conn.inputBuffer.Inv
  log : ∃ before n, w.log = before ++ List.replicate n .badRequest ∧ .badRequest ∉ before
  rejected : .badRequest ∈ w.log → Rejected w.context w.tcp.conn.inputBuffer.readable
  once : w.refusals = 0 ∨ w.refusals = 1 ∧ w.tcp.closed

variable {w w' : Connection κ}

/-- Steps that leave the bytes in the input buffer alone. -/
theorem Refusing.of_same (h : Refusing w) {tcp : TcpConnection.World} {c : HttpContext κ}
    (hinv : tcp.conn.inputBuffer.Inv)
    (hbytes : tcp.conn.inputBuffer.readable = w.tcp.conn.inputBuffer.readable)
    (hclosed : w.tcp.closed → tcp.closed)
    (hc : ∀ buf, Rejected w.context buf → Rejected c buf) :
    Refusing { w with tcp := tcp, context := c } where
  buffer := hinv
  log := h.log
  rejected := by
    intro hbad
    rw [hbytes]
    exact hc _ (h.rejected hbad)
  once := h.once.imp_right fun hsent => ⟨hsent.1, hclosed hsent.2⟩

theorem Refusing.of_follows (h : Refusing w) {tcp : TcpConnection.World} {c : HttpContext κ}
    (hfollows : TcpConnection.Follows w.tcp tcp)
    (hc : ∀ buf, Rejected w.context buf → Rejected c buf) :
    Refusing { w with tcp := tcp, context := c } := by
  refine h.of_same ?_ ?_ (fun hclosed => (hfollows.closed hclosed).1) hc
  · rw [hfollows.input]
    exact h.buffer
  · rw [hfollows.input]

/-- A read that is refused: the `400` goes out if the connection is still `kConnected`, and
    behind it no other can. -/
theorem Refusing.refuse (h : Refusing w) {s tcp : TcpConnection.World} {c : HttpContext κ}
    {r : WriteResult} (hinv : s.conn.inputBuffer.Inv) (hclosed : w.tcp.closed → s.closed)
    (hrejected : Rejected c s.conn.inputBuffer.readable)
    (hcalls : TcpConnection.Follows (TcpConnection.userCallback s .message
      [.send badRequestResponse r, .shutdown]) tcp) :
    Refusing
      { tcp := tcp, context := c, log := w.log ++ [.badRequest]
        refusals := w.refusals + if s.conn.state = .kConnected then 1 else 0 } := by
  have hcallback : TcpConnection.Follows s (TcpConnection.userCallback s .message
      [.send badRequestResponse r, .shutdown]) := TcpConnection.userCallback_follows _ rfl
  have hfollows := hcallback.trans hcalls
  obtain ⟨before, n, hlog, hbefore⟩ := h.log
  refine ⟨by rw [hfollows.input]; exact hinv, ⟨before, n + 1, ?_, hbefore⟩,
    fun _ => by rw [hfollows.input]; exact hrejected, ?_⟩
  · rw [hlog, List.append_assoc, List.replicate_succ']
  show w.refusals + (if s.conn.state = .kConnected then 1 else 0) = 0 ∨
    w.refusals + (if s.conn.state = .kConnected then 1 else 0) = 1 ∧ tcp.closed
  by_cases hstate : s.conn.state = .kConnected
  · -- a connection that is still `kConnected` has sent no `400` yet
    rw [if_pos hstate]
    have hzero : w.refusals = 0 := by
      rcases h.once with hzero | ⟨-, hbefore⟩
      · exact hzero
      · exact absurd hstate (TcpConnection.not_connected_of_closed (hclosed hbefore))
    refine .inr ⟨by rw [hzero], (hcalls.closed ?_).1⟩
    -- `shutdown` finds the state that `send` has left
    apply TcpConnection.shutdown_closes
    show (TcpConnection.send _ _ _ _).conn.state = .kConnected
    rw [TcpConnection.send_state]
    exact hstate
  · rw [if_neg hstate]
    exact h.once.imp_right fun hsent => ⟨hsent.1, (hfollows.closed (hclosed hsent.2)).1⟩

/-- A read that is not: the parser takes some bytes, and the callbacks run. -/
theorem messageCalls_of_not_bad {s : TcpConnection.World} {rest : Bytes} {events : List Event}
    {r : WriteResult} {calls : List Call} (hinv : s.conn.inputBuffer.Inv)
    (hbad : .badRequest ∉ events) (hcalls : calls.all Call.leavesInput = true) :
    (TcpConnection.userCallback s .message
      (messageCalls s.conn.inputBuffer.readable rest events r calls)).conn.inputBuffer.Inv ∧
    (s.closed → (TcpConnection.userCallback s .message
      (messageCalls s.conn.inputBuffer.readable rest events r calls)).closed) := by
  have hlast : (if .onReadyRead ∈ events then calls else []).all Call.leavesInput = true := by
    split
    · exact hcalls
    · rfl
  rw [TcpConnection.userCallback, messageCalls, if_neg hbad, List.append_nil, List.foldl_append]
  -- `retrieve` is called with what the parser has taken, never with more than there is
  by_cases htaken : rest.length < s.conn.inputBuffer.readable.length
  · rw [if_pos htaken, List.foldl_cons, List.foldl_nil]
    have hfollows := TcpConnection.calls_follows hlast (TcpConnection.call loopThread
      (s.callback .message) (.retrieve (s.conn.inputBuffer.readable.length - rest.length)))
    have hlen := Buffer.length_readable hinv
    have hyields := Buffer.retrieve_yields hinv
      (show s.conn.inputBuffer.readable.length - rest.length ≤ s.conn.inputBuffer.readableBytes by omega)
    refine ⟨?_, fun hclosed => (hfollows.closed hclosed).1⟩
    rw [hfollows.input]
    exact hyields.inv
  · rw [if_neg htaken, List.foldl_nil]
    have hfollows := TcpConnection.calls_follows hlast (s.callback .message)
    refine ⟨?_, fun hclosed => (hfollows.closed hclosed).1⟩
    rw [hfollows.input]
    exact hinv

/-- What a message does: `s` is the connection in front of the callback. -/
theorem step_message {revents : Revents} {m : Message κ} {r write : WriteResult}
    {calls : List Call} (hbuffer : w.tcp.conn.inputBuffer.Inv)
    (hstep : step w (.message revents m r calls write) = some w') :
    ∃ (s tcp : TcpConnection.World) (events : List Event) (c : HttpContext κ) (rest : Bytes),
      s.conn.inputBuffer.Inv ∧
      s.conn.inputBuffer.readable = w.tcp.conn.inputBuffer.readable ++ m.data ∧
      (w.tcp.closed → s.closed) ∧ calls.all Call.leavesInput = true ∧
      onMessage w.context s.conn.inputBuffer.readable m = some (events, c, rest) ∧
      TcpConnection.Follows (TcpConnection.userCallback s .message
        (messageCalls s.conn.inputBuffer.readable rest events r calls)) tcp ∧
      w' = { tcp := tcp, context := c, log := w.log ++ events
             refusals := w.refusals +
               if .badRequest ∈ events ∧ s.conn.state = .kConnected then 1 else 0 } := by
  rw [step] at hstep
  obtain ⟨⟨hreads, hdata, hcalls⟩, hrun⟩ := Option.ite_none_right_eq_some.mp hstep
  obtain ⟨⟨events, c, rest⟩, hmessage, hrun⟩ := Option.bind_eq_some_iff.mp hrun
  obtain ⟨tcp, htcp, rfl⟩ := Option.map_eq_some_iff.mp hrun
  obtain ⟨b, bs, hbs⟩ := List.exists_cons_of_ne_nil hdata
  -- the buffer that `onMessage` sees is the one behind a hang-up, which leaves it alone
  have hhung : TcpConnection.Follows w.tcp (w.tcp.hungUp revents []) :=
    TcpConnection.hungUp_follows rfl
  rw [hbs, ← hhung.input] at htcp hmessage
  obtain ⟨u, rfl, hinv, hreadable, hcallback⟩ := TcpConnection.step_reads hreads rfl hbuffer htcp
  have hflushed : TcpConnection.Follows u (u.flushed revents write) :=
    TcpConnection.flushed_follows write
  rw [hcallback] at hflushed
  rw [hcallback, hbs]
  exact ⟨(w.tcp.hungUp revents []).received (.ok (b :: bs)), _, events, c, rest, hinv, hreadable,
    fun hclosed => (hhung.closed hclosed).1, hcalls, hmessage, hflushed, rfl⟩

theorem message_refusing (h : Refusing w) {revents : Revents} {m : Message κ} {r write : WriteResult}
    {calls : List Call} (hstep : step w (.message revents m r calls write) = some w') :
    Refusing w' := by
  obtain ⟨s, tcp, events, c, rest, hinv, hreadable, hclosed, hcalls, hmessage, hfollows, rfl⟩ :=
    step_message h.buffer hstep
  by_cases hbad : .badRequest ∈ events
  · obtain ⟨rfl, rfl, hrejected⟩ := rejected_of_badRequest hmessage hbad
    have hsent : TcpConnection.Follows (TcpConnection.userCallback s .message
        [.send badRequestResponse r, .shutdown]) tcp := by
      simpa [messageCalls] using hfollows
    simpa using h.refuse hinv hclosed hrejected hsent
  · -- nothing was refused before either
    have hfresh : .badRequest ∉ w.log := by
      intro hlogged
      obtain ⟨c', hagain, -⟩ := onMessage_rejected (h.rejected hlogged) m m.data
      rw [← hreadable, hmessage] at hagain
      cases hagain
      exact hbad List.mem_cons_self
    obtain ⟨hbuffer, hlater⟩ := messageCalls_of_not_bad hinv hbad hcalls
    have hnone : .badRequest ∉ w.log ++ events := by
      rw [List.mem_append]
      rintro (hin | hin)
      · exact hfresh hin
      · exact hbad hin
    refine ⟨by rw [hfollows.input]; exact hbuffer,
      ⟨w.log ++ events, 0, (List.append_nil _).symm, hnone⟩, fun hin => absurd hin hnone, ?_⟩
    show w.refusals + (if .badRequest ∈ events ∧ _ then 1 else 0) = 0 ∨
      w.refusals + (if .badRequest ∈ events ∧ _ then 1 else 0) = 1 ∧ _
    rw [if_neg fun hin => hbad hin.1]
    exact h.once.imp_right fun hsent =>
      ⟨hsent.1, (hfollows.closed (hlater (hclosed hsent.2))).1⟩

theorem step_refusing (w : Connection κ) (a : Action κ) (w' : Connection κ) (h : Refusing w)
    (hstep : step w a = some w') : Refusing w' := by
  cases a with
  | message revents m r calls write => exact message_refusing h hstep
  | readEnd revents write =>
      rw [step] at hstep
      obtain ⟨hreads, hrun⟩ := Option.ite_none_right_eq_some.mp hstep
      obtain ⟨tcp, htcp, rfl⟩ := Option.map_eq_some_iff.mp hrun
      obtain ⟨u, rfl, hinv, hreadable, rfl⟩ :=
        TcpConnection.step_reads hreads rfl h.buffer htcp
      have hhung : TcpConnection.Follows w.tcp (w.tcp.hungUp revents []) :=
        TcpConnection.hungUp_follows rfl
      have hfollows : TcpConnection.Follows ((w.tcp.hungUp revents []).received (.ok []))
          ((TcpConnection.handleClose ((w.tcp.hungUp revents []).received (.ok [])) []).flushed
            revents write) :=
        (TcpConnection.handleClose_follows rfl).trans (TcpConnection.flushed_follows write)
      refine h.of_same ?_ ?_ (fun hclosed => (hfollows.closed (hhung.closed hclosed).1).1)
        fun _ hc => hc
      · rw [hfollows.input]
        exact hinv
      · rw [hfollows.input]
        exact hreadable
  | readError revents errno write =>
      rw [step] at hstep
      obtain ⟨hreads, hrun⟩ := Option.ite_none_right_eq_some.mp hstep
      obtain ⟨tcp, htcp, rfl⟩ := Option.map_eq_some_iff.mp hrun
      obtain ⟨u, rfl, hsteady⟩ := TcpConnection.step_reads hreads rfl h.buffer htcp
      have hhung : TcpConnection.Follows w.tcp (w.tcp.hungUp revents []) :=
        TcpConnection.hungUp_follows rfl
      exact h.of_follows ((hhung.trans (TcpConnection.Steady.follows hsteady)).trans
        (TcpConnection.flushed_follows write)) fun _ hc => hc
  | tcp a =>
      rw [step] at hstep
      obtain ⟨hleaves, hrun⟩ := Option.ite_none_right_eq_some.mp hstep
      obtain ⟨tcp, htcp, rfl⟩ := Option.map_eq_some_iff.mp hrun
      refine h.of_follows (TcpConnection.step_follows hleaves htcp) fun buf hc => ?_
      -- a new context judges the line in the same way
      cases a with
      | connectEstablished calls => exact ⟨rfl, hc.line⟩
      | _ => exact hc

theorem newConnection_refusing (self fd : Nat) (epoll : Epoll) (wc hw : Bool) (mark : Nat) :
    Refusing ({ tcp := TcpConnection.newConnection self fd epoll wc hw mark } : Connection κ) where
  buffer := Buffer.new_inv _
  log := ⟨[], 0, rfl, List.not_mem_nil⟩
  rejected := fun hbad => absurd hbad List.not_mem_nil
  once := .inl rfl

/-- Behind the first refusal there are only refusals. -/
theorem Refusing.behind (h : Refusing w) {before after : List Event}
    (hlog : w.log = before ++ .badRequest :: after) : ∀ e ∈ after, e = .badRequest := by
  obtain ⟨first, n, hfirst, hnone⟩ := h.log
  rw [hfirst] at hlog
  -- the marked refusal is one of the `n`, since `first` has none
  rcases List.append_eq_append_iff.mp hlog with ⟨more, -, hmore⟩ | ⟨more, hmore, htail⟩
  · intro e he
    have hin : e ∈ List.replicate n Event.badRequest := by
      rw [hmore]
      simp [he]
    exact List.eq_of_mem_replicate hin
  · rcases more with _ | ⟨e, more⟩
    · intro e he
      have hin : e ∈ List.replicate n Event.badRequest := by
        rw [List.nil_append] at htail
        rw [← htail]
        simp [he]
      exact List.eq_of_mem_replicate hin
    · cases htail
      exact absurd (by rw [hmore]; simp) hnone

end Connection

/-- **A rejected connection stays rejected.**  Once `parseRequest` has returned false, every
    later call does, with any bytes behind it; in every run of a connection no callback is
    dispatched after a refusal, and one `400` is sent at most, by which the connection leaves
    `kConnected`. -/
theorem rejected_stays_rejected :
    (∀ (c : HttpContext κ) (buf : Bytes) (t : DateTime) (events : List StollError) (p : Parser κ),
      c.parseRequest buf t = some (events, p) → p.ok = false → ∀ reads : List Read,
        ∃ later, laterCalls p.context p.buf reads = some later ∧ later.length = reads.length ∧
          ∀ q ∈ later, q.1 = [] ∧ q.2.ok = false ∧ q.2.context.state = .expectRequestLine) ∧
    ∀ (self fd : Nat) (epoll : Epoll) (wc hw : Bool) (mark : Nat)
      (actions : List (Connection.Action κ)) (w : Connection κ),
      run Connection.step { tcp := TcpConnection.newConnection self fd epoll wc hw mark } actions =
          some w →
        (∀ before after, w.log = before ++ .badRequest :: after → ∀ e ∈ after, e = .badRequest) ∧
          (.badRequest ∈ w.log → w.context.state = .expectRequestLine) ∧
          w.refusals ≤ 1 ∧ (0 < w.refusals → w.tcp.conn.state ≠ .kConnected) := by
  constructor
  · intro c buf t events p hp hok reads
    obtain ⟨-, -, hrejected⟩ := rejected_of_refused hp hok
    exact hrejected.laterCalls reads
  · intro self fd epoll wc hw mark actions w hrun
    have hw := run_invariant Connection.step_refusing
      (Connection.newConnection_refusing self fd epoll wc hw mark) hrun
    refine ⟨fun before after hlog => hw.behind hlog, fun hbad => (hw.rejected hbad).state, ?_, ?_⟩
    · rcases hw.once with h | ⟨h, -⟩ <;> omega
    · intro hsent
      rcases hw.once with h | ⟨-, hclosed⟩
      · omega
      · exact TcpConnection.not_connected_of_closed hclosed

/-- Two reads of a connection, the second behind the bad line of the first. -/
def rejectedActions : List (Connection.Action Unit) :=
  [.tcp (.connectEstablished []),
    .message { epollin := true } { data := ascii "X\r\n".toList, receiveTime := 0 } (.ok 28) [] (.ok 0),
    .message { epollin := true } { data := ascii "GET / HTTP/1.1\r\n\r\n".toList, receiveTime := 0 }
      (.ok 28) [] (.ok 0)]

theorem rejected_stays_rejected_line :
    (∃ p, (({} : HttpContext Unit).parseRequest (ascii "X\r\n".toList) 0) = some ([], p) ∧
      p.ok = false ∧ ∃ later, laterCalls p.context p.buf [⟨ascii "GET".toList, 0⟩] = some later ∧
        later.length = 1 ∧ ∀ q ∈ later, q.2.ok = false) ∧
    ∃ w, run Connection.step
        { tcp := TcpConnection.newConnection 1 3 Epoll.empty false false 0 } rejectedActions = some w ∧
      w.log = [.badRequest, .badRequest] ∧ w.refusals ≤ 1 ∧
      w.context.state = .expectRequestLine := by
  obtain ⟨hcalls, hruns⟩ := rejected_stays_rejected (κ := Unit)
  constructor
  · have hparse : ((({} : HttpContext Unit).parseRequest (ascii "X\r\n".toList) 0).map
        fun x => (x.1, x.2.ok)) = some ([], false) := by decide +kernel
    obtain ⟨⟨events, p⟩, hp, hx⟩ := Option.map_eq_some_iff.mp hparse
    obtain ⟨rfl, hok⟩ := Prod.mk.inj hx
    obtain ⟨later, hlater, hlength, hall⟩ := hcalls _ _ _ _ _ hp hok [⟨ascii "GET".toList, 0⟩]
    exact ⟨p, hp, hok, later, hlater, hlength, fun q hq => (hall q hq).2.1⟩
  · have hsome : ((run Connection.step
        { tcp := TcpConnection.newConnection 1 3 Epoll.empty false false 0 } rejectedActions).map
          fun w => w.log) = some [.badRequest, .badRequest] := by decide +kernel
    obtain ⟨w, hrun, hlog⟩ := Option.map_eq_some_iff.mp hsome
    obtain ⟨-, hstate, hrefusals, -⟩ := hruns 1 3 Epoll.empty false false 0 rejectedActions w hrun
    exact ⟨w, hrun, hlog, hrefusals, hstate (by rw [hlog]; exact List.mem_cons_self)⟩

end HttpServer
end Youth.Http
