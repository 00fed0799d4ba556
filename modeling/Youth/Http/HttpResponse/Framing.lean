/-
  Youth.Http.HttpResponse.Framing

  How a client finds the end of a response on a connection that stays open.

  It looks for the `Content-Length` line among the lines before the first empty one.
  `appendToBuffer` formats such a line in two of its branches and appends it in one: under a
  given content length it stays in the array (`framed_iff_of_plain`).  The texts of a
  response are written as they are, so the exact condition (`keep_alive_framed_iff`) also
  speaks of the lines that a line break in one of them adds.
-/

import Youth.Lib.Lines
import Youth.Http.HttpMethod.Basic

namespace Youth.Http
namespace HttpResponse

open Youth.Lib

/-- The setters. -/
inductive Setter
  | setStatusCode (code : HttpStatusCode)
  | setStatusMessage (message : Bytes)
  | setCloseConnection (on : Bool)
  | setContentType (contentType : Bytes)
  | addHeader (key value : Bytes)
  | setBody (body : Bytes)
  | setContentLength (length : Int)

def Setter.apply (r : HttpResponse) : Setter → HttpResponse
  | .setStatusCode code => r.setStatusCode code
  | .setStatusMessage message => r.setStatusMessage message
  | .setCloseConnection on => r.setCloseConnection on
  | .setContentType contentType => r.setContentType contentType
  | .addHeader key value => r.addHeader key value
  | .setBody body => r.setBody body
  | .setContentLength length => r.setContentLength length

/-- `HttpResponse(close)`, and then the setters in their order. -/
def build (close : Bool) (setters : List Setter) : HttpResponse :=
  setters.foldl Setter.apply { closeConnection := close }

/-! ## What a client sees -/

/-- The lines before the first empty one. -/
def headLines (output : Bytes) : List Bytes := (lines 13 10 output).takeWhile (· ≠ [])

/-- The name of the line is `Content-Length`. -/
def isLengthLine (line : Bytes) : Bool := (ascii "Content-Length:".toList).isPrefixOf line

/-- The line by which the body is delimited. -/
def lengthLine (r : HttpResponse) : Bytes :=
  ascii ("Content-Length: ".toList ++
    if 0 < r.contentLength then formatInt r.contentLength else formatNat r.body.length)

/-- There is one `Content-Length` line, and it is right. -/
def Framed (r : HttpResponse) : Prop :=
  (headLines (r.appendToBuffer [])).filter isLengthLine = [r.lengthLine]

instance (r : HttpResponse) : Decidable r.Framed := inferInstanceAs (Decidable (_ = _))

/-! ## The lines of the output -/

/-- The lines that the status message adds to its own. -/
def messageLines (r : HttpResponse) : List Bytes := (lines 13 10 r.statusMessage).tail

/-- A header up to the end of its line. -/
def headerText (header : Bytes × Bytes) : Bytes := header.1 ++ ascii ": ".toList ++ header.2

def headerLines (r : HttpResponse) : List Bytes :=
  r.headers.flatMap fun header => lines 13 10 (headerText header)

def keepAlive : Bytes := ascii "Connection: Keep-Alive".toList

/-- The lines that `appendToBuffer` writes of its own on an open connection. -/
def ownLines (r : HttpResponse) : List Bytes :=
  if 0 < r.contentLength then [keepAlive] else [r.lengthLine, keepAlive]

variable {r : HttpResponse}

theorem lines_crlf (xs ys : Bytes) :
    lines 13 10 (xs ++ crlf ++ ys) = lines 13 10 xs ++ lines 13 10 ys := by
  rw [List.append_assoc]
  exact lines_append_separator (by decide) xs ys

theorem not_mem_digits (n : Nat) : (13 : UInt8) ∉ ascii (formatNat n) := by
  intro hin
  obtain ⟨c, hc, hcr⟩ := List.mem_map.mp hin
  -- digits are far above the carriage return
  have hdigit := Nat.isDigit_of_mem_toDigits (by decide) (by decide) hc
  obtain ⟨hlow, hhigh⟩ := Char.isDigit_iff_toNat.mp hdigit
  have hzero : '0'.toNat = 48 := rfl
  have hnine : '9'.toNat = 57 := rfl
  have htoNat := congrArg UInt8.toNat hcr
  rw [UInt8.toNat_ofNat', Nat.mod_eq_of_lt (by omega)] at htoNat
  have h13 : (13 : UInt8).toNat = 13 := rfl
  omega

theorem lengthLine_eq (h : ¬0 < r.contentLength) :
    r.lengthLine = ascii "Content-Length: ".toList ++ ascii (formatNat r.body.length) := by
  rw [lengthLine, if_neg h]
  exact List.map_append

theorem not_mem_lengthLine (h : ¬0 < r.contentLength) : (13 : UInt8) ∉ r.lengthLine := by
  rw [lengthLine_eq h, List.mem_append]
  rintro (hin | hin)
  · revert hin
    decide
  · exact not_mem_digits _ hin

/-- The size of the body fits the array. -/
theorem connectionLines_eq (hopen : r.closeConnection = false) (hbody : r.body.length < 2 ^ 63) :
    r.connectionLines = r.ownLines.flatMap (· ++ crlf) := by
  have hkeep : ascii "Connection: Keep-Alive\r\n".toList = keepAlive ++ crlf := by decide
  have hdigits : (formatNat r.body.length).length ≤ 20 := length_formatNat (by decide) (by omega)
  rw [connectionLines, hopen, ownLines]
  by_cases hlength : 0 < r.contentLength
  · simp only [hlength, hkeep, Bool.false_eq_true, if_false, if_true, List.flatMap_singleton]
  · -- 16 characters of name, 20 digits at most, and the line break
    have hfits : ("Content-Length: ".toList ++ formatNat r.body.length ++ "\r\n".toList).length < 64 := by
      simp only [List.length_append]
      have htext : "Content-Length: ".toList.length = 16 := by decide
      have hbreak : "\r\n".toList.length = 2 := by decide
      omega
    have hbreak : ascii "\r\n".toList = crlf := by decide
    rw [snprintf_eq_self hfits]
    simp only [hlength, if_false, Bool.false_eq_true, List.flatMap_cons, List.flatMap_nil,
      List.append_nil, lengthLine_eq hlength, hkeep, ← hbreak]
    simp [ascii]

theorem lines_ownLines (ys : Bytes) :
    lines 13 10 (r.ownLines.flatMap (· ++ crlf) ++ ys) = r.ownLines ++ lines 13 10 ys := by
  have hkeep : lines 13 10 keepAlive = [keepAlive] := lines_of_not_mem (by decide)
  rw [ownLines]
  split
  · rw [List.flatMap_singleton, lines_crlf, hkeep]
  · next h =>
    rw [List.flatMap_cons, List.flatMap_singleton, List.append_assoc (r.lengthLine ++ crlf), lines_crlf, lines_crlf, hkeep,
      lines_of_not_mem (not_mem_lengthLine h)]
    rfl

theorem lines_headers (headers : List (Bytes × Bytes)) (ys : Bytes) :
    lines 13 10 (headers.flatMap headerLine ++ ys) =
      (headers.flatMap fun header => lines 13 10 (headerText header)) ++ lines 13 10 ys := by
  induction headers with
  | nil => rfl
  | cons header headers ih =>
      rw [List.flatMap_cons, List.flatMap_cons, List.append_assoc, List.append_assoc, ← ih]
      exact lines_crlf (headerText header) _

/-- `HTTP/1.1` and the status code. -/
def statusText (r : HttpResponse) : Bytes :=
  ascii (snprintf 64 ("HTTP/1.1 ".toList ++ formatInt r.statusCode.toInt ++ [' ']))

theorem not_mem_statusText (r : HttpResponse) : (13 : UInt8) ∉ r.statusText := by
  rw [statusText]
  cases r.statusCode <;> decide

/-- The lines of a response on an open connection. -/
theorem lines_appendToBuffer (hopen : r.closeConnection = false) (hbody : r.body.length < 2 ^ 63) :
    ∃ first, lines 13 10 (r.appendToBuffer []) =
      (r.statusText ++ first) :: (r.messageLines ++ (r.ownLines ++ (r.headerLines ++
        [] :: lines 13 10 r.body))) := by
  obtain ⟨first, more, hmessage⟩ := exists_lines 13 10 r.statusMessage
  have hempty : lines 13 10 (crlf ++ r.body) = [] :: lines 13 10 r.body := lines_crlf [] _
  refine ⟨first, ?_⟩
  calc lines 13 10 (r.appendToBuffer [])
      = lines 13 10 (r.statusText ++ r.statusMessage ++ crlf ++ (r.ownLines.flatMap (· ++ crlf) ++
          (r.headers.flatMap headerLine ++ (crlf ++ r.body)))) := by
        rw [← connectionLines_eq hopen hbody]
        simp [appendToBuffer, head, statusLine, statusText]
    _ = lines 13 10 (r.statusText ++ r.statusMessage) ++ (r.ownLines ++ (r.headerLines ++
          [] :: lines 13 10 r.body)) := by
        rw [lines_crlf, lines_ownLines, lines_headers, hempty]
        rfl
    _ = _ := by
        rw [lines_append (not_mem_statusText r), messageLines, hmessage]
        rfl

/-! ## When a response is framed -/

/-- The `Content-Length` lines that line breaks in the texts of the response add. -/
def addedLengths (r : HttpResponse) : List Bytes :=
  ((r.messageLines ++ r.headerLines).takeWhile (· ≠ [])).filter isLengthLine

/-- Nothing behind an empty line belongs to the head. -/
theorem takeWhile_append_cons {α : Type} {p : α → Bool} {x : α} (hp : p x = false)
    (xs ys : List α) : (xs ++ x :: ys).takeWhile p = xs.takeWhile p := by
  induction xs with
  | nil => simp [hp]
  | cons y xs ih => rw [List.cons_append, List.takeWhile_cons, List.takeWhile_cons, ih]

theorem nonempty_of_not_mem {xs : List Bytes} (h : [] ∉ xs) :
    ∀ line ∈ xs, decide (line ≠ []) = true := by
  intro line hline
  rw [decide_eq_true_eq]
  rintro rfl
  exact h hline

theorem statusText_cons (r : HttpResponse) : ∃ rest, r.statusText = 72 :: rest := by
  rw [statusText]
  cases r.statusCode <;> exact ⟨_, rfl⟩

theorem ownLines_nonempty (r : HttpResponse) : ∀ line ∈ r.ownLines, decide (line ≠ []) = true := by
  apply nonempty_of_not_mem
  have hkeep : keepAlive ≠ [] := by decide
  have hlength : r.lengthLine ≠ [] := by simp [lengthLine, ascii]
  rw [ownLines]
  split
  · simp [hkeep.symm]
  · simp [hkeep.symm, hlength.symm]

/-- The head breaks off in the status message, or it goes on to the headers. -/
theorem headLines_eq (hopen : r.closeConnection = false) (hbody : r.body.length < 2 ^ 63) :
    (headLines (r.appendToBuffer [])).filter isLengthLine =
      if [] ∈ r.messageLines then r.addedLengths
      else r.messageLines.filter isLengthLine ++ (r.ownLines.filter isLengthLine ++
        (r.headerLines.takeWhile (· ≠ [])).filter isLengthLine) := by
  obtain ⟨first, hlines⟩ := lines_appendToBuffer hopen hbody
  obtain ⟨rest, hrest⟩ := statusText_cons r
  have hstop : ∀ {xs ys : List Bytes},
      (xs ++ [] :: ys).takeWhile (· ≠ []) = xs.takeWhile (· ≠ []) :=
    fun {xs ys} => takeWhile_append_cons rfl xs ys
  have hfirst : isLengthLine (r.statusText ++ first) = false := by
    rw [hrest]
    rfl
  rw [headLines, hlines, List.takeWhile_cons_of_pos (by simp [hrest]),
    List.filter_cons_of_neg (by simp [hfirst])]
  by_cases hblank : [] ∈ r.messageLines
  · -- the empty line is among those of the message: nothing behind it counts
    obtain ⟨before, after, hsplit⟩ := List.append_of_mem hblank
    rw [if_pos hblank, addedLengths, hsplit, List.append_assoc, List.append_assoc, List.cons_append,
      List.cons_append, hstop, hstop]
  · rw [if_neg hblank, List.takeWhile_append_of_pos (nonempty_of_not_mem hblank),
      List.takeWhile_append_of_pos (ownLines_nonempty r), hstop, List.filter_append,
      List.filter_append]

theorem filter_ownLines (r : HttpResponse) :
    r.ownLines.filter isLengthLine = if 0 < r.contentLength then [] else [r.lengthLine] := by
  have hkeep : isLengthLine keepAlive = false := by decide
  have hlength : isLengthLine r.lengthLine = true := by
    rw [lengthLine, ascii, List.map_append]
    rfl
  rw [ownLines]
  split
  · simp [hkeep]
  · simp [hkeep, hlength]

/-- The line of its own is the only one, or there is one among those added. -/
theorem lengthLine_iff (hopen : r.closeConnection = false) (hbody : r.body.length < 2 ^ 63) :
    r.Framed ↔
      if 0 < r.contentLength ∨ [] ∈ r.messageLines then r.addedLengths = [r.lengthLine]
      else r.addedLengths = [] := by
  rw [Framed, headLines_eq hopen hbody, filter_ownLines]
  by_cases hblank : [] ∈ r.messageLines
  · rw [if_pos hblank, if_pos (.inr hblank)]
  · have hadded : r.addedLengths = r.messageLines.filter isLengthLine ++
        (r.headerLines.takeWhile (· ≠ [])).filter isLengthLine := by
      rw [addedLengths, List.takeWhile_append_of_pos (nonempty_of_not_mem hblank),
        List.filter_append]
    rw [if_neg hblank]
    by_cases hlength : 0 < r.contentLength
    · rw [if_pos hlength, if_pos (.inl hlength), hadded, List.nil_append]
    · have hneither : ¬(0 < r.contentLength ∨ [] ∈ r.messageLines) := by
        rintro (h | h)
        · exact hlength h
        · exact hblank h
      rw [if_neg hlength, if_neg hneither, hadded]
      -- one line is there already
      constructor
      · intro hone
        have hlen := congrArg List.length hone
        simp only [List.length_append, List.length_singleton] at hlen
        rw [← List.length_eq_zero_iff, List.length_append]
        omega
      · intro hnone
        obtain ⟨hfirst, hlast⟩ := List.append_eq_nil_iff.mp hnone
        rw [hfirst, hlast]
        rfl

/-! ## Responses whose texts have no line breaks -/

structure Plain (r : HttpResponse) : Prop where
  message : ¬crlf <:+: r.statusMessage
  headers : ∀ h ∈ r.headers, (¬crlf <:+: h.1 ∧ ¬crlf <:+: h.2) ∧
    colon ∉ h.1 ∧ h.1 ≠ ascii "Content-Length".toList

theorem headerText_eq (h : Bytes × Bytes) : headerText h = h.1 ++ colon :: 32 :: h.2 := by
  simp [headerText, ascii, colon]

theorem lines_headerText {h : Bytes × Bytes} (hname : ¬crlf <:+: h.1) (hvalue : ¬crlf <:+: h.2) :
    lines 13 10 (headerText h) = [headerText h] := by
  apply lines_of_not_infix
  rw [headerText_eq]
  apply not_infix_append_cons (by decide) (by decide) hname
  have hspace : ¬crlf <:+: [] ++ 32 :: h.2 :=
    not_infix_append_cons (by decide) (by decide) (by simp) hvalue
  exact hspace

/-- The name of a header ends at its colon. -/
theorem isLengthLine_headerText {h : Bytes × Bytes} (hcolon : colon ∉ h.1)
    (hname : h.1 ≠ ascii "Content-Length".toList) : isLengthLine (headerText h) = false := by
  by_contra hlength
  rw [Bool.not_eq_false, isLengthLine, List.isPrefixOf_iff_prefix] at hlength
  obtain ⟨rest, hrest⟩ := hlength
  have htext : ascii "Content-Length:".toList = ascii "Content-Length".toList ++ [colon] := by decide
  rw [htext, headerText_eq, List.append_assoc, List.singleton_append] at hrest
  have hcut : cut [colon] (ascii "Content-Length".toList ++ colon :: rest) =
      some (ascii "Content-Length".toList, rest) := cut_cons (by decide) rest
  rw [hrest, cut_cons hcolon] at hcut
  obtain ⟨hsame, -⟩ := Prod.mk.inj (Option.some.inj hcut)
  exact hname hsame

/-- Without line breaks in its texts a response is framed unless its length is given. -/
theorem framed_iff_of_plain (h : r.Plain) (hopen : r.closeConnection = false)
    (hbody : r.body.length < 2 ^ 63) : r.Framed ↔ r.contentLength ≤ 0 := by
  have hmessage : r.messageLines = [] := by
    rw [messageLines, lines_of_not_infix h.message]
    rfl
  have hnone : r.addedLengths = [] := by
    rw [addedLengths, hmessage, List.nil_append, List.filter_eq_nil_iff]
    -- every line of the headers is a header
    intro line hline
    have hin := List.takeWhile_subset _ hline
    obtain ⟨header, hheader, hline⟩ := List.mem_flatMap.mp hin
    obtain ⟨⟨hname, hvalue⟩, hcolon, hother⟩ := h.headers header hheader
    rw [lines_headerText hname hvalue, List.mem_singleton] at hline
    rw [hline, isLengthLine_headerText hcolon hother]
    exact Bool.false_ne_true
  rw [lengthLine_iff hopen hbody, hmessage, hnone]
  by_cases hlength : 0 < r.contentLength
  · simp [hlength]
  · simp [hlength]
    omega

/-! ## The result -/

/-- **Framing of keep-alive responses.**  Of every response that setters have built for an
    open connection: if its content length is given (or a line break in the status message
    ends the head), the `Content-Length` line has to be among those that line breaks in its
    texts add; otherwise none of these may be one. -/
theorem keep_alive_framed_iff (close : Bool) (setters : List Setter)
    (hopen : (build close setters).closeConnection = false)
    (hbody : (build close setters).body.length < 2 ^ 63) :
    (build close setters).Framed ↔
      if 0 < (build close setters).contentLength ∨ [] ∈ (build close setters).messageLines then
        (build close setters).addedLengths = [(build close setters).lengthLine]
      else (build close setters).addedLengths = [] :=
  lengthLine_iff hopen hbody

/-- A text as the body. -/
theorem keep_alive_framed_iff_text :
    (build false [.setStatusCode .k200Ok, .setStatusMessage (ascii "OK".toList),
      .setContentType (ascii "text/plain".toList), .setBody (ascii "hello".toList)]).Framed :=
  (keep_alive_framed_iff false [.setStatusCode .k200Ok, .setStatusMessage (ascii "OK".toList),
    .setContentType (ascii "text/plain".toList), .setBody (ascii "hello".toList)] rfl
      (by decide)).mpr (by decide)

/-- What `getFile` sets for a file of five bytes: the client is not told the length. -/
theorem keep_alive_file_not_framed :
    ∃ setters : List Setter, (build false setters).closeConnection = false ∧
      (∀ h ∈ (build false setters).headers, h.1 ≠ ascii "Content-Length".toList) ∧
      ¬(build false setters).Framed := by
  refine ⟨[.setContentLength 5, .setStatusCode .k200Ok, .setStatusMessage (ascii "OK".toList),
    .setContentType (ascii "text/plain".toList),
    .addHeader (ascii "Server".toList) (ascii "youth".toList)], rfl, ?_, ?_⟩
  · decide
  · decide

end HttpResponse

namespace HttpMethodBuilder

open Youth.Lib

/-- On an open connection `getFile` frames no file but an empty one. -/
theorem getFile_framed_iff {fs : FileSystem} {c c' : HttpContext Core.File} {resp : HttpResponse}
    {content : Bytes} {calls : List FileCall} {transfers : Bool}
    (hcontent : fs.openRead (filePath c.request) = some content)
    (hget : getFile fs c { closeConnection := false } = some (calls, c', resp, transfers)) :
    resp.Framed ↔ content = [] := by
  rw [getFile] at hget
  split at hget
  · cases hget
  · simp only [hcontent, Option.some.injEq, Prod.mk.injEq] at hget
    obtain ⟨-, -, rfl, -⟩ := hget
    have hplain : HttpResponse.Plain ((((({ closeConnection := false } : HttpResponse).setContentLength
        content.length).setStatusCode .k200Ok).setStatusMessage (ascii "OK".toList)).setContentType
          (ascii "text/plain".toList) |>.addHeader (ascii "Server".toList) (ascii "youth".toList)) :=
      ⟨show ¬crlf <:+: ascii "OK".toList by decide, by
        show ∀ h ∈ HttpResponse.assign (ascii "Server".toList) (ascii "youth".toList)
          (HttpResponse.assign (ascii "Content-Type".toList) (ascii "text/plain".toList) []), _
        decide⟩
    rw [HttpResponse.framed_iff_of_plain hplain rfl (show 0 < 2 ^ 63 by decide)]
    show (content.length : Int) ≤ 0 ↔ content = []
    rw [← List.length_eq_zero_iff]
    omega

end HttpMethodBuilder
end Youth.Http
