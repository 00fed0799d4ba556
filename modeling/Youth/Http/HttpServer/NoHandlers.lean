/-
  Youth.Http.HttpServer.NoHandlers

  The server of `youth/net/http/HttpServer.cpp` with its method builder and all its
  connections, and what becomes of it when nothing was ever registered.

  `onRequest` asks whether the method map is empty before it turns to the builder.  But
  `onReadyRead` has come first, and has made an entry by looking for one.  So the map is
  empty only as long as no request has come through to its body (`no_handlers_iff`); from
  then on files are served, stored and removed.  What the handlers raise leaves the loop: the
  server ends (`terminated`).
-/

import Youth.Lib.Machine
import Youth.Http.HttpMethod.Builder
import Youth.Http.HttpServer.Basic

namespace Youth.Http

open Youth.Lib
open Youth.Core (DateTime File)

namespace HttpContext

variable {κ : Type}

theorem turn_context (t : DateTime) (p : Parser κ) :
    (p.turn t).state.context.context = p.context.context := by
  obtain ⟨⟨state, r, context⟩, buf, ok⟩ := p
  cases state with
  | expectRequestLine =>
      simp only [Parser.turn, Parser.expectRequestLine]
      split
      · rfl
      · split <;> rfl
  | expectHeaders =>
      simp only [Parser.turn, Parser.expectHeaders]
      split
      · rfl
      · split
        · rfl
        · split <;> rfl
  | expectBody =>
      simp only [Parser.turn, Parser.expectBody]
      split
      · rfl
      · split <;> rfl
  | gotAll => rfl

/-- Parsing leaves the user's context alone. -/
theorem parseRequest_context {c : HttpContext κ} {buf : Bytes} {t : DateTime}
    {events : List StollError} {p : Parser κ} (h : c.parseRequest buf t = some (events, p)) :
    p.context.context = c.context :=
  Loops.invariant (I := fun q : Parser κ => q.context.context = c.context)
    (fun q hq => (turn_context t q).trans hq) (loops_of_loop h) rfl

end HttpContext

namespace HttpServer

open HttpMethodBuilder
open HttpContext (Read)

/-- A server with its connections, by their numbers. -/
structure Site where
  methodMap : MethodMap := ∅
  /-- The registered handlers that are alive. -/
  handlers : Nat → Option HttpMethodFactory := fun _ => none
  contexts : Nat → HttpContext File := fun _ => {}
  inputBuffers : Nat → Bytes := fun _ => []
  answers : List HttpResponse := []
  files : List FileCall := []
  /-- An exception has left the loop. -/
  terminated : Bool := false

namespace Site

/-- `onRequest` without a callback. -/
def onRequest (s : Site) (fs : FileSystem) (c : HttpContext File) :
    MethodMap × List FileCall × Except HandlerError Answer :=
  let response : HttpResponse := { closeConnection := closeRequested c.request }
  if isEmpty s.methodMap then
    (s.methodMap, [], .ok { context := c, response := HttpMethodFactory.defaultCall response })
  else HttpMethodBuilder.onRequest s.handlers fs s.methodMap c response

def setContext (s : Site) (i : Nat) (c : HttpContext File) (buf : Bytes) : Site :=
  { s with
    contexts := Function.update s.contexts i c
    inputBuffers := Function.update s.inputBuffers i buf }

/-- `onReadyRead` without a callback, on the connection `i`. -/
def readyRead (s : Site) (fs : FileSystem) (i : Nat) : Site :=
  let x := HttpMethodBuilder.onReadyRead s.handlers fs s.methodMap (s.contexts i)
  { s with
    methodMap := x.1
    files := s.files ++ x.2.1
    contexts := Function.update s.contexts i x.2.2.1 }

/-- `onRequest`, and then `reset`.  Nobody catches what a handler raises: the process ends, with
    the calls made and the request not answered. -/
def request (s : Site) (fs : FileSystem) (i : Nat) : Site :=
  let x := s.onRequest fs (s.contexts i)
  let t := { s with methodMap := x.1, files := s.files ++ x.2.1 }
  match x.2.2 with
  | .error _ => { t with terminated := true }
  | .ok answer =>
    { t with
      answers := t.answers ++ [answer.response]
      contexts := Function.update t.contexts i answer.context.reset }

/-- `onMessage`.  The `400` of a request line that is refused comes from no handler, and is
    left out. -/
def onMessage (s : Site) (i : Nat) (read : Read) (fs : FileSystem) : Option Site :=
  ((s.contexts i).parseRequest (s.inputBuffers i ++ read.data) read.receiveTime).map fun p =>
    let t := s.setContext i p.2.context p.2.buf
    match p.1 with
    | _ :: _ => { t with terminated := true }
    | [] =>
      if p.2.context.gotBody then t.readyRead fs i
      else if p.2.context.gotAll then (t.readyRead fs i).request fs i
      else t

inductive Action
  /-- A connection comes up. -/
  | connection (i : Nat)
  | message (i : Nat) (read : Read) (fs : FileSystem)
  | registerMethod (self : Nat) (impl : HttpMethodFactory)
  /-- The last pointer to a handler is gone. -/
  | expire (self : Nat)

def step (s : Site) (a : Action) : Option Site :=
  if s.terminated then none
  else
    match a with
    | .connection i => some (s.setContext i {} [])
    | .message i read fs => s.onMessage i read fs
    | .registerMethod self impl =>
      let handlers := Function.update s.handlers self (some impl)
      some
        { s with
          handlers := handlers
          methodMap := HttpMethodBuilder.registerMethod handlers s.methodMap self impl }
    | .expire self => some { s with handlers := Function.update s.handlers self none }

/-- Nothing is registered. -/
def Action.isTraffic : Action → Bool
  | .connection _ => true
  | .message _ _ _ => true
  | _ => false

/-- The message brings the head of a request to its end, or more of its body. -/
def reachesBody (s : Site) : Action → Bool
  | .message i read _ =>
    match (s.contexts i).parseRequest (s.inputBuffers i ++ read.data) read.receiveTime with
    | some ([], p) => p.context.gotBody || p.context.gotAll
    | _ => false
  | _ => false

/-- The map is empty, every request was answered by `defaultCall`, and no file was touched. -/
structure ServesNothing (s : Site) : Prop where
  empty : isEmpty s.methodMap = true
  answers : ∀ r ∈ s.answers, ∃ close, r = HttpMethodFactory.defaultCall { closeConnection := close }
  files : s.files = []

/-! ## The builder as a pair of callbacks -/

section Effects

variable (lock : Nat → Option HttpMethodFactory) (fs : FileSystem) (m : MethodMap)
  (c : HttpContext File) (resp : HttpResponse)

theorem putReadyRead_effect : ∃ e : Effect File, (putReadyRead fs c).2.1 = e.apply c := by
  unfold putReadyRead
  split
  · exact ⟨{}, rfl⟩
  · split
    next file _ => exact ⟨⟨true, some (some _)⟩, rfl⟩
    · -- the first chunk opens the file, or the connection is shut down
      dsimp only
      split
      · exact ⟨⟨true, some (some _)⟩, rfl⟩
      · exact ⟨{}, rfl⟩

theorem onReadyRead_effect :
    ∃ e : Effect File, (HttpMethodBuilder.onReadyRead lock fs m c).2.2.1 = e.apply c := by
  unfold HttpMethodBuilder.onReadyRead
  dsimp only
  split
  next share index _ =>
    by_cases hdrains : share.readyRead index c.request = true
    · exact ⟨⟨true, none⟩, by simp [hdrains, Effect.apply, Effect.drain]⟩
    · exact ⟨{}, by simp [hdrains, Effect.apply, Effect.drain]⟩
  · exact putReadyRead_effect fs c

theorem answerFile_effect {answer : Answer} (h : (answerFile fs c resp).2 = .ok answer) :
    ∃ e : Effect File, answer.context = e.apply c := by
  unfold answerFile at h
  split at h
  · cases h
  next hput =>
    cases h
    -- the file is written and closed
    unfold putFinish at hput
    split at hput
    · cases hput
    · split at hput
      · cases hput
      · cases hput
        exact ⟨⟨true, some (some _)⟩, rfl⟩
  · split at h
    next hget =>
      -- an open file is kept for the transfer
      cases h
      unfold getFile at hget
      split at hget
      · cases hget
      · dsimp only at hget
        split at hget
        · cases hget
          exact ⟨{}, rfl⟩
        · cases hget
          exact ⟨⟨false, some (some _)⟩, rfl⟩
    · split at h
      next calls result _ =>
        -- a removal that does not raise leaves the context as it was
        rcases result with _ | resp'
        · cases h
        · cases h
          exact ⟨{}, rfl⟩
      · cases h
        exact ⟨{}, rfl⟩

theorem onRequest_effect {answer : Answer} (s : Site) (h : (s.onRequest fs c).2.2 = .ok answer) :
    ∃ e : Effect File, answer.context = e.apply c := by
  unfold onRequest at h
  dsimp only at h
  split at h
  · cases h
    exact ⟨{}, rfl⟩
  · unfold HttpMethodBuilder.onRequest at h
    dsimp only at h
    split at h
    · cases h
      exact ⟨{}, rfl⟩
    · exact answerFile_effect fs c _ h

end Effects

theorem readyRead_effect (s : Site) (fs : FileSystem) (i : Nat) :
    ∃ e : Effect File, (s.readyRead fs i).contexts i = e.apply (s.contexts i) := by
  obtain ⟨e, he⟩ := onReadyRead_effect s.handlers fs s.methodMap (s.contexts i)
  refine ⟨e, ?_⟩
  rw [← he]
  exact Function.update_self _ _ _

theorem request_effect {s : Site} {fs : FileSystem} {i : Nat}
    (hlive : (s.request fs i).terminated = false) :
    ∃ e : Effect File, (s.request fs i).contexts i = (e.apply (s.contexts i)).reset ∧
      (s.request fs i).inputBuffers = s.inputBuffers := by
  rcases hanswer : (s.onRequest fs (s.contexts i)).2.2 with _ | answer
  · simp [request, hanswer] at hlive
  · obtain ⟨e, he⟩ := onRequest_effect fs (s.contexts i) s hanswer
    refine ⟨e, ?_, ?_⟩
    · simp [request, hanswer, he]
    · simp [request, hanswer]

/-- The server is the one of `HttpServer.onMessage`, with the builder for its callbacks. -/
theorem onMessage_effects {s t : Site} {i : Nat} {read : Read} {fs : FileSystem}
    (h : s.onMessage i read fs = some t) (hlive : t.terminated = false) :
    ∃ (m : Message File) (events : List Event), m.toRead = read ∧
      HttpServer.onMessage (s.contexts i) (s.inputBuffers i ++ read.data) m =
        some (events, t.contexts i, t.inputBuffers i) := by
  obtain ⟨⟨raised, p⟩, hp, rfl⟩ := Option.map_eq_some_iff.mp h
  -- an exception that leaves `onMessage` would have ended the server
  rcases raised with _ | ⟨e, raised⟩
  swap
  · cases hlive
  -- what the two callbacks find in the connection's context
  have hcontext : (s.setContext i p.context p.buf).contexts i = p.context :=
    Function.update_self _ _ _
  have hbuffer : (s.setContext i p.context p.buf).inputBuffers i = p.buf :=
    Function.update_self _ _ _
  have hkept : ((s.setContext i p.context p.buf).readyRead fs i).inputBuffers i = p.buf := hbuffer
  obtain ⟨refused, hrefused⟩ : ∃ refused : List Event,
      refused = if p.ok = true then [] else [.badRequest] := ⟨_, rfl⟩
  obtain ⟨ready, hready⟩ := readyRead_effect (s.setContext i p.context p.buf) fs i
  rw [hcontext] at hready
  by_cases hbody : p.context.gotBody = true
  · refine ⟨{ toRead := read, readyRead := ready }, refused ++ [.onReadyRead], rfl, ?_⟩
    simp only [HttpServer.onMessage, hp, Option.map_some, hbody, if_true, hready, hkept,
      ← hrefused]
  by_cases hall : p.context.gotAll = true
  · simp only [hbody, hall, if_true, Bool.false_eq_true, if_false] at hlive
    obtain ⟨request, hrequest, hsame⟩ := request_effect hlive
    refine ⟨{ toRead := read, readyRead := ready, request := request },
      refused ++ [.onReadyRead, .onRequest], rfl, ?_⟩
    simp only [HttpServer.onMessage, hp, Option.map_some, hbody, hall, if_true, Bool.false_eq_true,
      if_false, hrequest, hready, hsame, hkept, ← hrefused]
  · refine ⟨{ toRead := read }, refused, rfl, ?_⟩
    simp only [HttpServer.onMessage, hp, Option.map_some, hbody, hall, Bool.false_eq_true, if_false,
      hcontext, hbuffer, ← hrefused]

/-! ## One step -/

/-- Entries are made and never removed, and the two logs grow. -/
structure Grows (s t : Site) : Prop where
  empty : isEmpty t.methodMap = true → isEmpty s.methodMap = true
  answers : s.answers <+: t.answers
  files : s.files <+: t.files

variable {s t u : Site}

theorem Grows.refl (s : Site) : Grows s s := ⟨id, List.prefix_refl _, List.prefix_refl _⟩

theorem Grows.trans (h : Grows s t) (h' : Grows t u) : Grows s u :=
  ⟨fun hu => h.empty (h'.empty hu), h.answers.trans h'.answers, h.files.trans h'.files⟩

theorem Grows.servesNothing (h : Grows s t) (ht : ServesNothing t) : ServesNothing s where
  empty := h.empty ht.empty
  answers := fun r hr => ht.answers r (h.answers.subset hr)
  files := List.prefix_nil.mp (ht.files ▸ h.files)

theorem setContext_grows (s : Site) (i : Nat) (c : HttpContext File) (buf : Bytes)
    (terminated : Bool) : Grows s { s.setContext i c buf with terminated := terminated } :=
  ⟨id, List.prefix_refl _, List.prefix_refl _⟩

theorem readyRead_grows (s : Site) (fs : FileSystem) (i : Nat) : Grows s (s.readyRead fs i) := by
  -- behind `m_methodMap[...]` the map is never empty
  refine ⟨fun h => ?_, List.prefix_refl _, List.prefix_append _ _⟩
  have hnot := isEmpty_onReadyRead s.handlers fs s.methodMap (s.contexts i)
  rw [show isEmpty (onReadyRead s.handlers fs s.methodMap (s.contexts i)).1 = true from h] at hnot
  cases hnot

theorem request_grows (s : Site) (fs : FileSystem) (i : Nat) : Grows s (s.request fs i) := by
  have hmap : isEmpty (s.onRequest fs (s.contexts i)).1 = true → isEmpty s.methodMap = true := by
    intro h
    -- the builder is asked only when the map is not empty
    by_contra hempty
    rw [onRequest, if_neg hempty, isEmpty_onRequest] at h
    cases h
  unfold request
  dsimp only
  split
  · exact ⟨hmap, List.prefix_refl _, List.prefix_append _ _⟩
  · exact ⟨hmap, List.prefix_append _ _, List.prefix_append _ _⟩

/-- A message that does not reach a body changes its connection only; one that does goes
    through `onReadyRead` first. -/
theorem onMessage_cases {i : Nat} {read : Read} {fs : FileSystem}
    (h : s.onMessage i read fs = some t) :
    (s.reachesBody (.message i read fs) = false ∧ ∃ c buf terminated,
      c.context = (s.contexts i).context ∧
        t = { s.setContext i c buf with terminated := terminated }) ∨
    (s.reachesBody (.message i read fs) = true ∧ ∃ c buf,
      Grows ((s.setContext i c buf).readyRead fs i) t) := by
  obtain ⟨⟨events, p⟩, hp, rfl⟩ := Option.map_eq_some_iff.mp h
  have hcontext := HttpContext.parseRequest_context hp
  rcases events with _ | ⟨e, events⟩
  · have hreaches : s.reachesBody (.message i read fs) = (p.context.gotBody || p.context.gotAll) := by
      simp [reachesBody, hp]
    rw [hreaches]
    rcases p.context.gotBody with _ | _
    · rcases p.context.gotAll with _ | _
      · refine .inl ⟨rfl, p.context, p.buf, s.terminated, hcontext, ?_⟩
        simp [setContext]
      · refine .inr ⟨rfl, p.context, p.buf, ?_⟩
        simpa using request_grows _ fs i
    · refine .inr ⟨rfl, p.context, p.buf, ?_⟩
      simpa using Grows.refl _
  · have hreaches : s.reachesBody (.message i read fs) = false := by simp [reachesBody, hp]
    exact .inl ⟨hreaches, p.context, p.buf, true, hcontext, rfl⟩

/-- Nothing was registered, answered or opened, and no request holds a file. -/
structure Idle (s : Site) : Prop where
  empty : isEmpty s.methodMap = true
  answers : s.answers = []
  files : s.files = []
  contexts : ∀ i, (s.contexts i).context = none

theorem Idle.servesNothing (h : Idle s) : ServesNothing s :=
  ⟨h.empty, by rw [h.answers]; exact fun r hr => absurd hr List.not_mem_nil, h.files⟩

theorem Idle.setContext (h : Idle s) {i : Nat} {c : HttpContext File} (hc : c.context = none)
    (buf : Bytes) (terminated : Bool) :
    Idle { s.setContext i c buf with terminated := terminated } where
  empty := h.empty
  answers := h.answers
  files := h.files
  contexts := by
    intro j
    show (Function.update s.contexts i c j).context = none
    by_cases hj : j = i
    · rw [hj, Function.update_self, hc]
    · rw [Function.update_of_ne hj]
      exact h.contexts j

theorem step_idle (a : Action) (h : Idle s) (ha : a.isTraffic = true)
    (hbody : s.reachesBody a = false) (hstep : step s a = some t) : Idle t := by
  obtain ⟨-, hrun⟩ := Option.ite_none_left_eq_some.mp hstep
  cases a with
  | connection i =>
      cases hrun
      exact h.setContext rfl [] s.terminated
  | message i read fs =>
      obtain ⟨-, c, buf, terminated, hc, rfl⟩ | ⟨hreaches, -⟩ := onMessage_cases hrun
      · exact h.setContext (hc.trans (h.contexts i)) buf terminated
      · rw [hbody] at hreaches
        cases hreaches
  | registerMethod self impl => cases ha
  | expire self => cases ha

theorem step_reachesBody (a : Action) (hbody : s.reachesBody a = true) (hstep : step s a = some t) :
    ¬ServesNothing t := by
  obtain ⟨-, hrun⟩ := Option.ite_none_left_eq_some.mp hstep
  cases a with
  | message i read fs =>
      obtain ⟨hno, -⟩ | ⟨-, c, buf, hgrows⟩ := onMessage_cases hrun
      · rw [hbody] at hno
        cases hno
      · -- the entry that `onReadyRead` has made
        intro ht
        have hempty := hgrows.empty ht.empty
        have hnot := isEmpty_onReadyRead s.handlers fs s.methodMap ((s.setContext i c buf).contexts i)
        rw [show isEmpty (onReadyRead s.handlers fs s.methodMap ((s.setContext i c buf).contexts i)).1
          = true from hempty] at hnot
        cases hnot
  | connection i => cases hbody
  | registerMethod self impl => cases hbody
  | expire self => cases hbody

theorem step_grows (a : Action) (ha : a.isTraffic = true) (hstep : step s a = some t) :
    Grows s t := by
  obtain ⟨-, hrun⟩ := Option.ite_none_left_eq_some.mp hstep
  cases a with
  | connection i =>
      cases hrun
      exact setContext_grows s i {} [] s.terminated
  | message i read fs =>
      obtain ⟨-, c, buf, terminated, -, rfl⟩ | ⟨-, c, buf, hgrows⟩ := onMessage_cases hrun
      · exact setContext_grows s i c buf terminated
      · have hcontext := setContext_grows s i c buf s.terminated
        exact hcontext.trans ((readyRead_grows (s.setContext i c buf) fs i).trans hgrows)
  | registerMethod self impl => cases ha
  | expire self => cases ha

/-! ## The result -/

/-- **A server without handlers serves nothing until the first request.**  Of every run in
    which nothing is registered: the map is still empty, every answer is `defaultCall`'s and
    no file was opened or removed, if and only if no message has brought a request to its
    body; and then no file is held that could be written to. -/
theorem no_handlers_iff (actions : List Action) (hactions : ∀ a ∈ actions, a.isTraffic = true)
    (s : Site) (hrun : run step {} actions = some s) :
    (ServesNothing s ↔ Along step (fun s a => s.reachesBody a = false) {} actions) ∧
      (Along step (fun s a => s.reachesBody a = false) {} actions →
        ∀ i, (s.contexts i).context = none) := by
  -- a run of idle steps stays idle, and the first step that is not leaves a trace for good
  have hnew : Idle ({} : Site) := ⟨rfl, rfl, rfl, fun _ => rfl⟩
  have htraffic : Along step (fun _ a => a.isTraffic = true ∧ True) {} actions :=
    (along_of_forall (fun _ _ => trivial) ({} : Site) actions).and_forall hactions
  obtain ⟨hiff, hidle⟩ := run_iff_along_within (J := fun _ => True) (G := ServesNothing)
    (fun _ _ _ _ _ _ => trivial) (fun s hs => Idle.servesNothing hs)
    (fun s a t _ hs ha hbody hstep => step_idle a hs ha.1 hbody hstep)
    (fun s a t _ _ _ hbody hstep => step_reachesBody a (by simpa using hbody) hstep)
    (fun s a t _ ha hstep ht => (step_grows a ha.1 hstep).servesNothing ht)
    trivial hnew hrun htraffic
  exact ⟨hiff, fun halong => (hidle halong).contexts⟩

/-- Files open for reading, with nothing in them, and none can be removed. -/
def emptyFiles : FileSystem where
  openRead := fun _ => some []
  openWrite := fun _ => false
  removeAll := fun _ => none

/-- A request that is not complete. -/
theorem no_handlers_iff_waiting :
    ∃ s, run step {} [.connection 0, .message 0 ⟨ascii "GET / HTTP/1.1\r\nHost".toList, 0⟩ emptyFiles] =
        some s ∧ ServesNothing s := by
  have hsome : (run step {} [.connection 0,
      .message 0 ⟨ascii "GET / HTTP/1.1\r\nHost".toList, 0⟩ emptyFiles]).isSome = true := by
    decide +kernel
  obtain ⟨s, hrun⟩ := Option.isSome_iff_exists.mp hsome
  refine ⟨s, hrun, (no_handlers_iff _ (by decide) s hrun).1.mpr ?_⟩
  decide +kernel

/-- The first request for a file opens it. -/
theorem first_request_opens_file :
    ∃ s, run step {} [.connection 0, .message 0 ⟨ascii "GET /a HTTP/1.1\r\n\r\n".toList, 0⟩ emptyFiles] =
        some s ∧ isEmpty s.methodMap = false ∧ s.files = [.openRead (ascii "./a".toList)] ∧
      s.answers.map HttpResponse.statusCode = [.k200Ok] ∧ ¬ServesNothing s := by
  have hsome : ((run step {} [.connection 0,
      .message 0 ⟨ascii "GET /a HTTP/1.1\r\n\r\n".toList, 0⟩ emptyFiles]).map fun s =>
        (isEmpty s.methodMap, s.files, s.answers.map HttpResponse.statusCode)) =
      some (false, [.openRead (ascii "./a".toList)], [.k200Ok]) := by
    decide +kernel
  obtain ⟨s, hrun, hs⟩ := Option.map_eq_some_iff.mp hsome
  simp only [Prod.mk.injEq] at hs
  obtain ⟨hempty, hfiles, hanswers⟩ := hs
  refine ⟨s, hrun, hempty, hfiles, hanswers, fun hnothing => ?_⟩
  rw [hnothing.empty] at hempty
  cases hempty

-- a removal that raises ends the server, and the request is not answered
example : (run step {} [.connection 0, .message 0 ⟨ascii "DELETE / HTTP/1.1\r\n\r\n".toList, 0⟩
    emptyFiles]).map (fun s => (s.terminated, s.files, s.answers.length)) =
      some (true, [.removeAll (ascii "./".toList)], 0) := by
  decide +kernel

end Site
end HttpServer
end Youth.Http
