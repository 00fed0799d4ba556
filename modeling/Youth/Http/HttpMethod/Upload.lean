/-
  Youth.Http.HttpMethod.Upload

  A `PUT` whose body arrives in chunks.

  `putReadyRead` drains the body behind every call of `parseRequest` and writes it to the
  file, `putFinish` does so once more at the end.  The accounting of the parser holds
  however the body is drained (`Streaming`), so each chunk is given to the file once and
  in order.  But `File::write` takes its length as an `int`: of a chunk of 2^31 bytes or
  more it writes less than it was given.  So the file is the body if and only if no chunk
  is that long; and no call may come behind the end of the body (`put_streaming_iff`).
-/

import Youth.Http.HttpContext.Streaming
import Youth.Http.HttpMethod.Basic

namespace Youth.Core.File

open Youth.Net

/-- The file is open for writing, with the next byte behind its last one. -/
structure AtEnd (f : File) : Prop where
  isOpen : f.isOpen = true
  mode : f.openMode = .writeOnly
  position : f.position = f.content.length

/-- `write` of a whole buffer, whose size becomes an `int`. -/
def writeAll (f : File) (data : List UInt8) : File := f.write data (intOfSize data.length)

theorem writeAll_nil (f : File) : f.writeAll [] = f := by
  by_cases hopen : f.isOpen ∧ f.openMode = .writeOnly ∧ f.good
  · have hzero : (0 : Int) ≤ intOfSize ([] : List UInt8).length := by decide
    rw [writeAll, write, if_pos hopen, if_pos hzero]
    simp
  · rw [writeAll, write, if_neg hopen]

/-- A chunk whose size is an `int` goes to the end of a good file. -/
theorem writeAll_small {f : File} (h : f.AtEnd) (hgood : f.good = true) {data : List UInt8}
    (hlen : data.length < 2 ^ 31) :
    f.writeAll data =
      { f with content := f.content ++ data, position := f.position + data.length } := by
  have hint : intOfSize data.length = data.length := intOfSize_of_lt hlen
  rw [writeAll, write, if_pos ⟨h.isOpen, h.mode, hgood⟩, hint, if_pos (by omega)]
  simp [h.position]

/-- Whatever the size is, the file does not grow by more than the chunk; and by less when
    the size is no `int`. -/
theorem writeAll_length {f : File} (h : f.AtEnd) (data : List UInt8) :
    (f.writeAll data).AtEnd ∧
      (f.writeAll data).content.length ≤ f.content.length + data.length ∧
      (2 ^ 31 ≤ data.length →
        (f.writeAll data).content.length < f.content.length + data.length) := by
  rw [writeAll, write]
  split
  · split
    next hpos =>
      have hlt := intOfSize_lt data.length
      have htake : (data.take (intOfSize data.length).toNat).length ≤ data.length := by
        rw [List.length_take]
        omega
      refine ⟨⟨h.isOpen, h.mode, ?_⟩, ?_, ?_⟩
      · simp [h.position]
      · simp [h.position]
      · intro hbig
        simp [h.position]
        omega
    next =>
      exact ⟨⟨h.isOpen, h.mode, h.position⟩, by show f.content.length ≤ _; omega,
        fun _ => by show f.content.length < _; omega⟩
  · exact ⟨h, by omega, fun _ => by omega⟩

/-- Chunks that are written one after the other make up the file iff the size of each is
    an `int`. -/
theorem foldl_writeAll_iff (chunks : List (List UInt8)) {f : File} (h : f.AtEnd)
    (hgood : f.good = true) :
    (chunks.foldl writeAll f).content = f.content ++ chunks.flatten ↔
      ∀ data ∈ chunks, data.length < 2 ^ 31 := by
  -- in any case the file is no longer than what was written
  have hlength : ∀ (chunks : List (List UInt8)) {f : File}, f.AtEnd →
      (chunks.foldl writeAll f).content.length ≤ f.content.length + chunks.flatten.length := by
    intro chunks
    induction chunks with
    | nil => intro f _; exact Nat.le_refl _
    | cons data chunks ih =>
        intro f h
        obtain ⟨hend, hle, -⟩ := writeAll_length h data
        have hrest := ih hend
        rw [List.foldl_cons, List.flatten_cons, List.length_append]
        omega
  induction chunks generalizing f with
  | nil => simp
  | cons data chunks ih =>
      rw [List.foldl_cons, List.forall_mem_cons]
      by_cases hsmall : data.length < 2 ^ 31
      · have hwrite := writeAll_small h hgood hsmall
        have hend := (writeAll_length h data).1
        have hcontent : (f.writeAll data).content = f.content ++ data := by rw [hwrite]
        have hiff := ih hend (by rw [hwrite]; exact hgood)
        rw [hcontent] at hiff
        rw [List.flatten_cons, ← List.append_assoc]
        exact hiff.trans ⟨fun hall => ⟨hsmall, hall⟩, fun hall => hall.2⟩
      · -- this chunk is cut, and nothing makes up for it
        obtain ⟨hend, -, hless⟩ := writeAll_length h data
        refine ⟨fun heq => ?_, fun hall => absurd hall.1 hsmall⟩
        have hlen := congrArg List.length heq
        have hrest := hlength chunks hend
        have hcut := hless (by omega)
        rw [List.flatten_cons, List.length_append, List.length_append] at hlen
        omega

end Youth.Core.File

namespace Youth.Http.HttpMethodBuilder

open Youth.Lib HttpContext HttpContext.Chunk
open Youth.Core (File)

/-- What `onMessage` does with the chunks of a `PUT` that nobody is registered for:
    `putReadyRead` behind every call, until all is there. -/
def receive (fs : FileSystem) (c : HttpContext File) :
    List Chunk → Option (List FileCall × HttpContext File)
  | [] => some ([], c)
  | x :: chunks =>
    (c.parseRequest x.data x.receiveTime).bind fun p =>
      let r := putReadyRead fs p.2.context
      if r.2.1.gotAll then some (r.1, r.2.1)
      else (receive fs r.2.1 chunks).map fun q => (r.1 ++ q.1, q.2)

/-- The file that `putReadyRead` opens when the headers end, and `putFinish` closes, holds
    the bytes of the chunks. -/
def Uploaded (fs : FileSystem) (c : HttpContext File) (chunks : List Chunk) : Prop :=
  ∃ calls u, receive fs (putReadyRead fs c).2.1 chunks = some (calls, u) ∧ u.state = .gotAll ∧
    (putReadyRead fs c).1 ++ calls = [.openWrite (filePath c.request)] ∧
    ∀ resp, ∃ v resp' file, putFinish u resp = some (.ok (v, resp')) ∧ v.context = some file ∧
      file.content = bytes chunks

/-- A `PUT` after the bytes `seen` of a body of `n`, all of them drained to the file. -/
structure Receiving (n : Nat) (seen : Bytes) (file : File) (c : HttpContext File) : Prop where
  streams : Streaming.Streams n seen ⟨c, [seen]⟩
  drained : c.request.body = []
  method : c.request.method = .put
  context : c.context = some file

variable (fs : FileSystem) {n : Nat} {seen : Bytes} {file : File} {c : HttpContext File}

theorem putReadyRead_of_file (hmethod : c.request.method = .put) (hfile : c.context = some file) :
    putReadyRead fs c = ([], writeBody c file, false) := by
  rw [putReadyRead, if_neg (not_not_intro hmethod), hfile]

/-- One call and the handler behind it give the chunk to the file. -/
theorem receive_cons (h : Receiving n seen file c) (hn : n < 2 ^ 64) (hopen : seen.length ≠ n)
    (x : Chunk) (hle : (seen ++ x.data).length ≤ n) (chunks : List Chunk) :
    ∃ u, Receiving n (seen ++ x.data) (file.writeAll x.data) u ∧
      receive fs c (x :: chunks) =
        if (seen ++ x.data).length = n then some ([], u) else receive fs u chunks := by
  have hstate : c.state = .expectBody := by
    have hc := h.streams.state
    rwa [if_neg hopen] at hc
  have hpos : 0 < c.request.contentLength := by
    have hlen : c.request.contentLength = n := h.streams.contentLength
    rw [List.length_append] at hle
    omega
  have hparse := parseRequest_body hstate hpos x.data x.receiveTime
  -- the context behind the call, and behind the handler
  obtain ⟨c', hc'⟩ : ∃ c' : HttpContext File, c' =
      { c with
        state := if (c.request.appendBody x.data).gotAllBody then .gotAll else .expectBody
        request := c.request.appendBody x.data } := ⟨_, rfl⟩
  have hbody : c'.request.body = x.data := by
    rw [hc']
    show c.request.body ++ x.data = x.data
    rw [h.drained, List.nil_append]
  have hready : putReadyRead fs c' = ([], writeBody c' file, false) := by
    rw [hc']
    exact putReadyRead_of_file fs h.method h.context
  obtain ⟨s, hstep, hs⟩ := Streaming.step_streams h.streams hn hopen { x with drains := true } hle
  have hdrain : s = Streaming.drain ⟨c', [seen]⟩ := by
    rw [Streaming.step, hparse, Option.map_some, Option.some.injEq] at hstep
    rw [← hstep, hc']
    rfl
  rw [hdrain] at hs
  have hfile : (writeBody c' file).context = some (file.writeAll x.data) := by
    rw [← hbody]
    rfl
  refine ⟨writeBody c' file, ⟨⟨hs.state, hs.contentLength, hs.count, ?_⟩, rfl, ?_, hfile⟩, ?_⟩
  · show [seen ++ x.data].flatten ++ [] = seen ++ x.data
    simp
  · rw [hc']
    exact h.method
  · have hgot : (writeBody c' file).gotAll = decide ((seen ++ x.data).length = n) := by
      have hlast : (writeBody c' file).state =
          if (seen ++ x.data).length = n then .gotAll else .expectBody := hs.state
      rw [HttpContext.gotAll, hlast]
      by_cases hdone : (seen ++ x.data).length = n <;> simp [hdone]
    rw [receive, hparse, Option.bind_some, ← hc', hready]
    simp only [hgot, decide_eq_true_eq, List.nil_append]
    rw [Option.map_id']

/-- All chunks go to the file, and nothing else is called. -/
theorem receive_all (hn : n < 2 ^ 64) (chunks : List Chunk) (h : Receiving n seen file c)
    (hopen : seen.length ≠ n) (htotal : (seen ++ bytes chunks).length = n) :
    ∃ u, receive fs c chunks = some ([], u) ∧ u.state = .gotAll ∧ u.request.body = [] ∧
      u.request.method = .put ∧
      u.context = some ((chunks.map (·.data)).foldl File.writeAll file) := by
  induction chunks generalizing c seen file with
  | nil =>
      rw [bytes_nil, List.append_nil] at htotal
      exact absurd htotal hopen
  | cons x chunks ih =>
      rw [bytes_cons, ← List.append_assoc] at htotal
      have hle : (seen ++ x.data).length ≤ n := by
        rw [List.length_append] at htotal
        omega
      obtain ⟨u, hu, hreceive⟩ := receive_cons fs h hn hopen x hle chunks
      by_cases hdone : (seen ++ x.data).length = n
      · -- the chunks behind the last byte are empty
        rw [if_pos hdone] at hreceive
        have hempty : ∀ y ∈ chunks, y.data = [] := by
          have hrest : bytes chunks = [] := by
            apply List.eq_nil_of_length_eq_zero
            rw [List.length_append] at htotal
            omega
          exact List.flatMap_eq_nil_iff.mp hrest
        have hwrites : (chunks.map (·.data)).foldl File.writeAll (file.writeAll x.data) =
            file.writeAll x.data := by
          clear hreceive htotal hle ih
          induction chunks with
          | nil => rfl
          | cons y chunks ihe =>
              obtain ⟨hy, hrest⟩ := List.forall_mem_cons.mp hempty
              rw [List.map_cons, List.foldl_cons, hy, File.writeAll_nil]
              exact ihe hrest
        refine ⟨u, hreceive, ?_, hu.drained, hu.method, ?_⟩
        · have hstate := hu.streams.state
          rwa [if_pos hdone] at hstate
        · rw [List.map_cons, List.foldl_cons, hwrites]
          exact hu.context
      · rw [if_neg hdone] at hreceive
        rw [hreceive]
        exact ih hu hdone htotal

/-- Behind a drain, `putFinish` has nothing more to write. -/
theorem putFinish_of_drained (hmethod : c.request.method = .put) (hfile : c.context = some file)
    (hbody : c.request.body = []) (resp : HttpResponse) :
    ∃ v resp', putFinish c resp = some (.ok (v, resp')) ∧ v.context = some file.close := by
  have hwrite : (writeBody c file).context = some file := by
    show some (file.writeAll c.request.body) = some file
    rw [hbody, File.writeAll_nil]
  rw [putFinish, if_neg (not_not_intro hmethod), hfile]
  refine ⟨_, _, rfl, ?_⟩
  show (writeBody c file).context.map File.close = some file.close
  rw [hwrite]
  rfl

/-- The file that a `PUT` opens for a new body is the body iff no chunk is too long for an
    `int`. -/
theorem uploaded_iff (h : Streaming.Streams n [] ⟨c, []⟩) (hn : n < 2 ^ 64) (hpos : 0 < n)
    (hcontext : c.context = none) (hmethod : c.request.method = .put)
    (hopens : fs.openWrite (filePath c.request) = true) {chunks : List Chunk}
    (htotal : (bytes chunks).length = n) :
    Uploaded fs c chunks ↔ ∀ x ∈ chunks, x.data.length < 2 ^ 31 := by
  have hnoBody : c.request.body = [] := h.pieces
  -- the headers have ended: the file is opened, and nothing written to it
  obtain ⟨empty, hempty⟩ : ∃ f : File, f = { openMode := .writeOnly, content := [] } := ⟨_, rfl⟩
  have hfirst : putReadyRead fs c =
      ([.openWrite (filePath c.request)], writeBody c empty, false) := by
    rw [putReadyRead, if_neg (not_not_intro hmethod), hcontext, hempty]
    simp only [hopens, if_true]
  have hfile : (writeBody c empty).context = some empty := by
    show some (empty.writeAll c.request.body) = some empty
    rw [hnoBody, File.writeAll_nil]
  have hreceiving : Receiving n [] empty (writeBody c empty) := by
    have hdrained := Streaming.drain_streams h (by rw [List.length_nil]; omega)
    exact ⟨⟨hdrained.state, hdrained.contentLength, hdrained.count, rfl⟩, rfl, hmethod, hfile⟩
  obtain ⟨u, hreceive, hstate, hbody, hput, hwritten⟩ :=
    receive_all fs hn chunks hreceiving (by rw [List.length_nil]; omega) (by simpa using htotal)
  have hfinish := putFinish_of_drained hput hwritten hbody
  have hcontent := File.foldl_writeAll_iff (chunks.map (·.data)) (f := empty)
    (by rw [hempty]; exact ⟨rfl, rfl, rfl⟩) (by rw [hempty])
  have hflat : empty.content ++ (chunks.map (·.data)).flatten = bytes chunks := by
    rw [hempty, List.nil_append]
    rfl
  rw [hflat, List.forall_mem_map] at hcontent
  rw [← hcontent]
  constructor
  · rintro ⟨calls, u', hu', -, -, hfile'⟩
    rw [hfirst] at hu'
    obtain ⟨-, rfl⟩ := Prod.mk.inj (Option.some.inj (hreceive.symm.trans hu'))
    obtain ⟨v, resp', file, hfin, hv, heq⟩ := hfile' { closeConnection := true }
    obtain ⟨v', resp'', hfin', hv'⟩ := hfinish { closeConnection := true }
    rw [hfin'] at hfin
    obtain ⟨rfl, -⟩ := Prod.mk.inj (Except.ok.inj (Option.some.inj hfin))
    rw [hv'] at hv
    rw [← heq, ← Option.some.inj hv]
    rfl
  · intro heq
    refine ⟨[], u, by rw [hfirst]; exact hreceive, hstate, by rw [hfirst]; rfl, fun resp => ?_⟩
    obtain ⟨v, resp', hfin, hv⟩ := hfinish resp
    exact ⟨v, resp', _, hfin, hv, heq⟩

/-- What should hold of a body of `n` bytes that comes in these chunks: the calls return and
    count it, and a file that a `PUT` opens is the body. -/
def BodyAccounted (fs : FileSystem) (c : HttpContext File) (n : Nat) (chunks : List Chunk) : Prop :=
  Accounted c n chunks ∧
    (c.request.method = .put → fs.openWrite (filePath c.request) = true → Uploaded fs c chunks)

/-- **Body accounting under streaming.**  A new context that expects a body of `n` bytes
    counts it right and hands every byte out once, whatever is drained when, and a file that
    a `PUT` opens is the body, if and only if no call comes behind the last byte (it would not
    return) and no chunk for the file is too long for an `int`. -/
theorem put_streaming_iff (fs : FileSystem) (reads : List Read) (f : Feeding File)
    (hf : feedHeaders {} [] reads = some f) (hstate : f.parser.context.state = .expectBody) (n : Nat)
    (hlength : f.parser.context.request.contentLength = n) (hpos : 0 < n) (hn : n < 2 ^ 63)
    (chunks : List Chunk) (htotal : (bytes chunks).length = n) :
    BodyAccounted fs f.parser.context n chunks ↔
      Streaming.InTime n [] chunks ∧ (f.parser.context.request.method = .put →
        fs.openWrite (filePath f.parser.context.request) = true →
        ∀ x ∈ chunks, x.data.length < 2 ^ 31) := by
  obtain ⟨hstreams, hcontext⟩ := streams_of_expectBody hf hstate hpos hlength
  refine and_congr (accounted_iff hstreams (by omega) htotal) ?_
  exact forall_congr' fun hput => forall_congr' fun hopens =>
    uploaded_iff fs hstreams (by omega) hpos hcontext hput hopens htotal

/-- Every file opens. -/
def writable : FileSystem where
  openRead := fun _ => none
  openWrite := fun _ => true
  removeAll := fun _ => some 0

/-- A `PUT` of three bytes in two chunks, the first of them drained. -/
theorem put_streaming_iff_three :
    ∃ f, feedHeaders ({} : HttpContext File) []
        [⟨ascii "PUT /a HTTP/1.1\r\nContent-Length: 3\r\n\r\n".toList, 0⟩] = some f ∧
      BodyAccounted writable f.parser.context 3 [⟨⟨[1, 2], 0⟩, true⟩, ⟨⟨[3], 0⟩, false⟩] := by
  have hfed : (feedHeaders ({} : HttpContext File) []
      [⟨ascii "PUT /a HTTP/1.1\r\nContent-Length: 3\r\n\r\n".toList, 0⟩]).map
      (fun f => (f.parser.context.state, f.parser.context.request.contentLength)) =
      some (.expectBody, 3) := by decide +kernel
  obtain ⟨f, hf, hseen⟩ := Option.map_eq_some_iff.mp hfed
  obtain ⟨hstate, hlength⟩ := Prod.mk.inj hseen
  refine ⟨f, hf, (put_streaming_iff writable _ f hf hstate 3 hlength (by decide) (by decide) _ rfl).mpr
    ⟨?_, ?_⟩⟩
  · rw [Streaming.inTime_cons_iff, Streaming.inTime_cons_iff]
    exact ⟨by decide, by decide, Streaming.inTime_nil⟩
  · intro _ _ x hx
    rcases List.mem_pair.mp hx with rfl | rfl <;> decide

/-- A chunk of 2^31 bytes: its size is a negative `int`, and nothing is written.  And a body of
    one byte behind which another call is made: it does not return. -/
theorem put_streaming_fails :
    (∃ f, feedHeaders ({} : HttpContext File) []
        [⟨ascii "PUT /a HTTP/1.1\r\nContent-Length: 2147483648\r\n\r\n".toList, 0⟩] = some f ∧
      f.parser.context.state = .expectBody ∧ f.parser.context.request.contentLength = 2 ^ 31 ∧
      (bytes [⟨⟨List.replicate (2 ^ 31) 0, 0⟩, false⟩]).length = 2 ^ 31 ∧
      ¬BodyAccounted writable f.parser.context (2 ^ 31)
        [⟨⟨List.replicate (2 ^ 31) 0, 0⟩, false⟩]) ∧
    ∃ f, feedHeaders ({} : HttpContext File) []
        [⟨ascii "POST /a HTTP/1.1\r\nContent-Length: 1\r\n\r\n".toList, 0⟩] = some f ∧
      f.parser.context.state = .expectBody ∧ f.parser.context.request.contentLength = 1 ∧
      ¬BodyAccounted writable f.parser.context 1 [⟨⟨[7], 0⟩, false⟩, ⟨⟨[], 0⟩, false⟩] := by
  constructor
  · have hfed : (feedHeaders ({} : HttpContext File) []
        [⟨ascii "PUT /a HTTP/1.1\r\nContent-Length: 2147483648\r\n\r\n".toList, 0⟩]).map
        (fun f => (f.parser.context.state, f.parser.context.request.contentLength,
          f.parser.context.request.method)) = some (.expectBody, 2147483648, .put) := by
      decide +kernel
    obtain ⟨f, hf, hseen⟩ := Option.map_eq_some_iff.mp hfed
    simp only [Prod.mk.injEq] at hseen
    obtain ⟨hstate, hlength, hput⟩ := hseen
    have htotal : (bytes [⟨⟨List.replicate (2 ^ 31) 0, 0⟩, false⟩]).length = 2 ^ 31 := by
      rw [bytes_cons, bytes_nil, List.append_nil, List.length_replicate]
    refine ⟨f, hf, hstate, hlength, htotal, ?_⟩
    rintro ⟨-, hupload⟩
    obtain ⟨hstreams, hcontext⟩ := streams_of_expectBody hf hstate (by decide) hlength
    have hsmall := (uploaded_iff writable hstreams (by decide) (by decide) hcontext hput rfl
      htotal).mp (hupload hput rfl) _ List.mem_cons_self
    rw [List.length_replicate] at hsmall
    omega
  · have hfed : (feedHeaders ({} : HttpContext File) []
        [⟨ascii "POST /a HTTP/1.1\r\nContent-Length: 1\r\n\r\n".toList, 0⟩]).map
        (fun f => (f.parser.context.state, f.parser.context.request.contentLength)) =
        some (.expectBody, 1) := by decide +kernel
    obtain ⟨f, hf, hseen⟩ := Option.map_eq_some_iff.mp hfed
    obtain ⟨hstate, hlength⟩ := Prod.mk.inj hseen
    refine ⟨f, hf, hstate, hlength, ?_⟩
    rintro ⟨haccounted, -⟩
    obtain ⟨hstreams, -⟩ := streams_of_expectBody hf hstate (by decide) hlength
    have htime := (accounted_iff hstreams (by decide) rfl).mp haccounted
    rw [Streaming.inTime_cons_iff, Streaming.inTime_cons_iff] at htime
    exact htime.2.1 rfl

end Youth.Http.HttpMethodBuilder
