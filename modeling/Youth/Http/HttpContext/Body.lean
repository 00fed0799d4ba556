/-
  Youth.Http.HttpContext.Body

  Where the parser sees the end of a body.

  A body of `n` bytes ends at its `n`-th byte wherever the reads are cut.  The
  parser appends all that is readable and compares the lengths for equality, and
  it stops at the end of the headers without looking at what follows them.  So it
  finds the end if and only if the reads are cut there, and once more between
  the end of the headers and there (`framed_iff`).
-/

import Youth.Http.HttpContext.Head

namespace Youth.Http.HttpContext

open Youth.Lib
open Youth.Core (DateTime)

variable {κ : Type}

/-- Where feeding stops: the last call, and the reads that were not needed. -/
structure Feeding (κ : Type) where
  events : List StollError
  parser : Parser κ
  unread : List Read

/-- The reads go to the parser one by one, until it has all, refuses or raises. -/
def feed (c : HttpContext κ) (buf : Bytes) : List Read → Option (Feeding κ)
  | [] => some ⟨[], ⟨c, buf, true⟩, []⟩
  | read :: reads =>
    (c.parseRequest (buf ++ read.data) read.receiveTime).bind fun p =>
      if p.1 = [] ∧ p.2.ok = true ∧ p.2.context.state ≠ .gotAll then
        feed p.2.context p.2.buf reads
      else some ⟨p.1, p.2, reads⟩

/-- The parser ends in `GotAll` with this body, and this is what it leaves unread. -/
def Framed (c : HttpContext κ) (buf : Bytes) (reads : List Read) (body rest : Bytes) : Prop :=
  ∃ f, feed c buf reads = some f ∧ f.events = [] ∧ f.parser.ok = true ∧
    f.parser.context.state = .gotAll ∧ f.parser.context.request.body = body ∧
    f.parser.buf ++ received f.unread = rest

/-- The reads are cut at the end of the body, and between the end of the head and there. -/
def CutAtBody (headLength n : Nat) (reads : List Read) : Prop :=
  ∃ head body after, reads = head ++ body ++ after ∧ body ≠ [] ∧
    headLength ≤ (received head).length ∧ (received (head ++ body)).length = headLength + n

section

variable {c : HttpContext κ} {buf : Bytes} {read : Read} {reads : List Read} {p : Parser κ}
  {body rest : Bytes}

/-- Without reads there is no end of a body. -/
theorem not_framed_nil (hc : c.state ≠ .gotAll) : ¬Framed c buf [] body rest := by
  rintro ⟨f, hf, -, -, hstate, -⟩
  cases hf
  exact hc hstate

theorem framed_cons_of_more
    (hp : c.parseRequest (buf ++ read.data) read.receiveTime = some ([], p)) (hok : p.ok = true)
    (hstate : p.context.state ≠ .gotAll) :
    Framed c buf (read :: reads) body rest ↔ Framed p.context p.buf reads body rest := by
  have hfeed : feed c buf (read :: reads) = feed p.context p.buf reads := by
    rw [feed, hp, Option.bind_some, if_pos ⟨rfl, hok, hstate⟩]
  rw [Framed, Framed, hfeed]

theorem framed_cons_of_gotAll
    (hp : c.parseRequest (buf ++ read.data) read.receiveTime = some ([], p)) (hok : p.ok = true)
    (hstate : p.context.state = .gotAll) :
    Framed c buf (read :: reads) body rest ↔
      p.context.request.body = body ∧ p.buf ++ received reads = rest := by
  have hfeed : feed c buf (read :: reads) = some ⟨[], p, reads⟩ := by
    rw [feed, hp, Option.bind_some, if_neg (by simp [hstate])]
  constructor
  · rintro ⟨f, hf, -, -, -, hbody, hrest⟩
    rw [hfeed] at hf
    cases hf
    exact ⟨hbody, hrest⟩
  · rintro ⟨hbody, hrest⟩
    exact ⟨_, hfeed, rfl, hok, hstate, hbody, hrest⟩

end

/-! ## In the body -/

variable {n : Nat} {body rest : Bytes}

/-- From the state that expects the body, the end is found when a later read ends there. -/
theorem framed_body_iff (hbody : body.length = n) (hn : n < 2 ^ 64) {reads : List Read}
    {c : HttpContext κ} {buf : Bytes} (hc : c.state = .expectBody) (hpos : 0 < n)
    (hlen : c.request.contentLength = n) (hread : c.request.readSize = 0)
    (hstream : c.request.body ++ buf ++ received reads = body ++ rest) :
    Framed c buf reads body rest ↔ ∃ more after, reads = more ++ after ∧ more ≠ [] ∧
      (c.request.body ++ buf ++ received more).length = n := by
  induction reads generalizing c buf with
  | nil =>
      constructor
      · intro h
        exact absurd h (not_framed_nil (by simp [hc]))
      · rintro ⟨more, after, hnil, hmore, -⟩
        exact absurd (List.append_eq_nil_iff.mp hnil.symm).1 hmore
  | cons read reads ih =>
      obtain ⟨p, r, hr, hparse, hok, hbuf, hreq, hstate⟩ :=
        exists_parseRequest_body hc (by omega) (buf ++ read.data) read.receiveTime
      have hrbody : r.body = c.request.body ++ buf ++ read.data := by
        simp [hr, HttpRequest.appendBody, List.append_assoc]
      have hgot : r.gotAllBody = true ↔ r.body.length % 2 ^ 64 = n := by
        have hrread : r.readSize = 0 := by rw [hr]; exact hread
        have hrlen : r.contentLength = n := by rw [hr]; exact hlen
        simp [HttpRequest.gotAllBody, hrread, hrlen]
      rw [received_cons, ← List.append_assoc, ← hrbody] at hstream
      by_cases hall : r.gotAllBody = true
      · -- the parser stops here, right or wrong
        rw [framed_cons_of_gotAll hparse hok (by simp [hstate, hall]), hreq, hbuf]
        constructor
        · rintro ⟨hbodyEq, -⟩
          refine ⟨[read], reads, rfl, by simp, ?_⟩
          rw [received_cons, received_nil, List.append_nil, ← hrbody, hbodyEq, hbody]
        · -- a later end of the body would lie behind bytes that are already in it
          rintro ⟨more, after, heq, hmore, hend⟩
          obtain ⟨first, more, rfl⟩ := List.exists_cons_of_ne_nil hmore
          obtain ⟨rfl, hreads⟩ := List.cons.inj heq
          rw [received_cons, ← List.append_assoc, ← hrbody] at hend
          have hmod := hgot.mp hall
          have hlength : r.body.length = n := by
            have hle : r.body.length ≤ n := by simp at hend; omega
            rw [Nat.mod_eq_of_lt (by omega)] at hmod
            exact hmod
          obtain ⟨hb, hrest⟩ := List.append_inj hstream (hlength.trans hbody.symm)
          exact ⟨hb, by simpa using hrest⟩
      · -- it goes on, so the body does not end with this read
        have hshort : r.body.length ≠ n := by
          intro hlength
          exact hall (hgot.mpr (by rw [hlength, Nat.mod_eq_of_lt hn]))
        rw [framed_cons_of_more hparse hok (by simp [hstate, hall]),
          ih (by simp [hstate, hall]) (by rw [hreq, hr]; exact hlen)
            (by rw [hreq, hr]; exact hread) (by simpa [hreq, hbuf] using hstream), hreq, hbuf]
        constructor
        · rintro ⟨more, after, heq, hmore, hend⟩
          refine ⟨read :: more, after, by rw [heq]; rfl, by simp, ?_⟩
          rw [received_cons, ← List.append_assoc, ← hrbody]
          simpa using hend
        · rintro ⟨more, after, heq, hmore, hend⟩
          obtain ⟨first, more, rfl⟩ := List.exists_cons_of_ne_nil hmore
          obtain ⟨rfl, hreads⟩ := List.cons.inj heq
          rw [received_cons, ← List.append_assoc, ← hrbody] at hend
          refine ⟨more, after, hreads, ?_, by simpa using hend⟩
          rintro rfl
          exact hshort (by simpa using hend)

/-! ## In the head -/

/-- Cutting the reads twice, behind the first one of them: the head does not fit in `s`, so that
    read is part of the first piece. -/
theorem exists_cut_cons {k m : Nat} {s : Bytes} (hs : s.length < k) (read : Read) (reads : List Read) :
    (∃ head more after, read :: reads = head ++ more ++ after ∧ more ≠ [] ∧
      k ≤ (s ++ received head).length ∧ (s ++ received (head ++ more)).length = m) ↔
    ∃ head more after, reads = head ++ more ++ after ∧ more ≠ [] ∧
      k ≤ (s ++ read.data ++ received head).length ∧
      (s ++ read.data ++ received (head ++ more)).length = m := by
  constructor
  · rintro ⟨head, more, after, heq, hmore, hheadLen, hmoreLen⟩
    rcases head with _ | ⟨first, head⟩
    · simp at hheadLen
      omega
    · obtain ⟨rfl, hreads⟩ := List.cons.inj heq
      refine ⟨head, more, after, hreads, hmore, ?_, ?_⟩
      · simpa [List.append_assoc] using hheadLen
      · simpa [List.append_assoc] using hmoreLen
  · rintro ⟨head, more, after, rfl, hmore, hheadLen, hmoreLen⟩
    refine ⟨read :: head, more, after, by simp, hmore, ?_, ?_⟩
    · simpa [List.append_assoc] using hheadLen
    · simpa [List.append_assoc] using hmoreLen

/-- From a state before the end of the head. -/
theorem framed_head_iff {h : RequestHead} (hdecl : h.Declares n) (hpos : 0 < n)
    (hbody : body.length = n) (hn : n < 2 ^ 64) {c₀ : HttpContext κ}
    (hc₀ : c₀.state = .expectRequestLine) (hr : c₀.request.headers = fun _ => none)
    (hlen : c₀.request.contentLength = 0) (hread : c₀.request.readSize = 0)
    (hempty : c₀.request.body = []) {reads : List Read} {c : HttpContext κ} {buf s : Bytes}
    (hfor : StandsFor c buf c₀ s) (hs : s.length < h.bytes.length)
    (hstream : s ++ received reads = h.bytes ++ (body ++ rest)) :
    Framed c buf reads body rest ↔ ∃ head more after, reads = head ++ more ++ after ∧ more ≠ [] ∧
      h.bytes.length ≤ (s ++ received head).length ∧
      (s ++ received (head ++ more)).length = h.bytes.length + n := by
  induction reads generalizing c buf s with
  | nil =>
      constructor
      · intro hframed
        exact absurd hframed (not_framed_nil hfor.heading.ne_gotAll)
      · rintro ⟨head, more, after, hnil, hmore, -⟩
        simp at hnil
        exact absurd hnil.2.1 hmore
  | cons read reads ih =>
      rw [received_cons, ← List.append_assoc] at hstream
      have hprefix : s ++ read.data <+: h.bytes ++ (body ++ rest) :=
        hstream ▸ List.prefix_append _ _
      by_cases hend : h.bytes.length ≤ (s ++ read.data).length
      · -- this read brings the end of the head; what follows it stays in the buffer
        obtain ⟨left, hleft⟩ :=
          List.prefix_of_prefix_length_le (List.prefix_append h.bytes _) hprefix hend
        obtain ⟨p, r, hp, hok, hbuf, hcontext, hrbody, hrread, hrlen⟩ :=
          hfor.parse_head hdecl hc₀ hr hleft.symm read.receiveTime
        have hrn : r.contentLength = n := by simpa [hlen] using hrlen
        have hstate : p.context.state = .expectBody := by
          rw [hcontext, endHeaders, if_neg (by omega)]
        have hreq : p.context.request = r := by rw [hcontext, endHeaders]
        rw [framed_cons_of_more hp hok (by simp [hstate]),
          framed_body_iff hbody hn hstate hpos (hreq ▸ hrn) (by rw [hreq, hrread, hread])
            (by simpa [hreq, hrbody, hempty, hbuf, ← hleft] using hstream),
          hreq, hrbody, hempty, hbuf]
        have hlength : (s ++ read.data).length = h.bytes.length + left.length := by
          rw [← hleft, List.length_append]
        rw [exists_cut_cons hs]
        constructor
        · rintro ⟨more, after, rfl, hmore, hmoreLen⟩
          refine ⟨[], more, after, rfl, hmore, by simpa [received] using hend, ?_⟩
          simp only [List.length_append, List.nil_append] at hmoreLen hlength ⊢
          omega
        · rintro ⟨head, more, after, rfl, hmore, -, hmoreLen⟩
          refine ⟨head ++ more, after, rfl, by simp [hmore], ?_⟩
          simp only [List.length_append, List.nil_append] at hmoreLen hlength ⊢
          omega
      · -- still inside the head
        obtain ⟨left, hleft⟩ : ∃ left, s ++ read.data ++ left = h.bytes :=
          List.prefix_of_prefix_length_le hprefix (List.prefix_append _ _) (by omega)
        have hne : left ≠ [] := by
          rintro rfl
          rw [List.append_nil] at hleft
          exact hend (by rw [hleft])
        obtain ⟨p, hp, hwait, hfor'⟩ := hfor.parse_short hdecl hc₀ hr hleft hne read.receiveTime
        rw [framed_cons_of_more hp hwait.2.1 hwait.2.2.ne_gotAll, ih hfor' (by omega) hstream,
          exists_cut_cons hs]

/-- A fresh context finds the end of the body if and only if the reads are cut at it, and
    once more between the end of the headers and there. -/
theorem framed_iff (h : RequestHead) (hdecl : h.Declares n) (hpos : 0 < n)
    (hbody : body.length = n) (reads : List Read)
    (hstream : received reads = h.bytes ++ (body ++ rest)) :
    Framed ({} : HttpContext κ) [] reads body rest ↔ CutAtBody h.bytes.length n reads := by
  have hn : n < 2 ^ 64 := by
    by_contra hle
    rw [RequestHead.Declares] at hdecl
    split at hdecl
    · omega
    · have := RequestHead.lt_of_stoll hdecl
      omega
  have hhead : 0 < h.bytes.length := by simp [RequestHead.bytes, crlf]
  rw [framed_head_iff hdecl hpos hbody hn rfl rfl rfl rfl rfl (StandsFor.refl (.inl rfl) [])
    (by simpa using hhead) (by simpa using hstream)]
  simp [CutAtBody]

/-- The head, its one byte of body, and the next request, in three reads. -/
theorem framed_iff_threeReads :
    Framed ({} : HttpContext Unit) []
      [⟨RequestHead.postOne.bytes, 0⟩, ⟨[97], 0⟩, ⟨RequestHead.getRoot.bytes, 0⟩]
      [97] RequestHead.getRoot.bytes :=
  (framed_iff RequestHead.postOne RequestHead.postOne_declares (by decide) rfl _
    (by simp)).mpr ⟨[_], [_], [_], rfl, by simp, by simp, by simp⟩

/-- The same stream with the next request in the read that brings the body: it goes to the
    body as well, and the parser still waits. -/
theorem not_framed_twoReads :
    RequestHead.postOne.Declares 1 ∧
    received [⟨RequestHead.postOne.bytes, 0⟩, ⟨97 :: RequestHead.getRoot.bytes, 0⟩] =
      RequestHead.postOne.bytes ++ ([97] ++ RequestHead.getRoot.bytes) ∧
    ¬Framed ({} : HttpContext Unit) []
      [⟨RequestHead.postOne.bytes, 0⟩, ⟨97 :: RequestHead.getRoot.bytes, 0⟩]
      [97] RequestHead.getRoot.bytes := by
  refine ⟨RequestHead.postOne_declares, by simp, ?_⟩
  rintro ⟨f, hf, -, -, hstate, -⟩
  have hrun : (feed ({} : HttpContext Unit) []
      [⟨RequestHead.postOne.bytes, 0⟩, ⟨97 :: RequestHead.getRoot.bytes, 0⟩]).map
        (fun f => f.parser.context.state) = some .expectBody := by decide +kernel
  rw [hf, Option.map_some, hstate] at hrun
  cases hrun

end Youth.Http.HttpContext
