/-
  Youth.Http.HttpMethod.Delivered

  When the answer to a `GET` request brings the whole file.

  While the file goes out there is always one thing to do: bytes wait for the socket, or
  one callback is due (`Reading`).  Each callback sends the string that `readMaxSize` makes
  of a piece, and the last one shuts the pipe down; from there on, or from the head on if
  the answer ends the connection, later sends are dropped (`Ended`).  So what arrives is
  the head and the strings, or the head alone, or nothing on a connection that an earlier
  answer has shut down.  The strings make up the file iff no piece is cut off at a zero and
  nothing from the stack is taken along (`flatMap_chunk_eq_iff`).
-/

import Youth.Http.HttpMethod.Transfer

namespace Youth.Http
namespace Transfer

open Youth.Lib Youth.Net HttpMethodBuilder
open Youth.Net.TcpConnection (Pipe Carries)
open Youth.Core (File cString)

variable {content : Bytes} {stack : Nat → Bytes}

/-! ## The pieces -/

/-- What `readMaxSize` makes of the piece number `i`. -/
def chunk (content : Bytes) (stack : Nat → Bytes) (i : Nat) : Bytes :=
  cString (piece content i ++ (stack i).drop (piece content i).length)

/-- What it takes along from the stack, if the piece has no zero. -/
def stale (content : Bytes) (stack : Nat → Bytes) (i : Nat) : Bytes :=
  cString ((stack i).drop (piece content i).length)

theorem bufSize_pos : 0 < bufSize := by decide

theorem lt_pieces_iff {k : Nat} : k < pieces content.length ↔ k = 0 ∨ k * bufSize < content.length := by
  rw [pieces, Nat.lt_succ_iff, Nat.le_div_iff_mul_le bufSize_pos]
  rcases Nat.eq_zero_or_pos k with rfl | hk
  · simp
  · have := Nat.mul_pos hk bufSize_pos
    omega

theorem flatMap_piece (content : Bytes) (m : Nat) :
    (List.range m).flatMap (piece content) = content.take (m * bufSize) := by
  induction m with
  | zero => simp
  | succ m ih =>
      rw [List.range_succ, List.flatMap_append, ih, List.flatMap_singleton, Nat.succ_mul,
        List.take_add]
      rfl

theorem flatMap_pieces (content : Bytes) :
    (List.range (pieces content.length)).flatMap (piece content) = content := by
  rw [flatMap_piece, List.take_of_length_le]
  have hend : ¬pieces content.length < pieces content.length := Nat.lt_irrefl _
  rw [lt_pieces_iff] at hend
  omega

theorem zero_not_mem_cString (memory : Bytes) : 0 ∉ cString memory := by
  intro hmem
  have := List.mem_takeWhile_imp hmem
  simp at this

theorem cString_eq_nil_iff (memory : Bytes) : cString memory = [] ↔ memory.getD 0 0 = 0 := by
  cases memory with
  | nil => simp [cString]
  | cons b memory => simp [cString, List.takeWhile_cons]

theorem chunk_eq (h : 0 ∉ content) (i : Nat) :
    chunk content stack i = piece content i ++ stale content stack i := by
  have hpiece : ∀ b ∈ piece content i, decide (b ≠ 0) = true := by
    intro b hb
    have hmem : b ∈ content := List.mem_of_mem_drop (List.mem_of_mem_take hb)
    rw [decide_eq_true_eq]
    rintro rfl
    exact h hmem
  exact List.takeWhile_append_of_pos hpiece

/-- The bytes taken along come on top of those of the pieces. -/
theorem length_flatMap_chunk (hzero : 0 ∉ content) (m : Nat) :
    ((List.range m).flatMap (chunk content stack)).length =
      ((List.range m).flatMap (piece content)).length +
        ((List.range m).flatMap (stale content stack)).length := by
  induction m with
  | zero => rfl
  | succ m ih =>
      simp only [List.range_succ, List.flatMap_append, List.length_append, ih,
        List.flatMap_singleton, chunk_eq hzero]
      omega

/-- The strings make up the file iff none is cut off and none takes anything along. -/
theorem flatMap_chunk_eq_iff (content : Bytes) (stack : Nat → Bytes) :
    (List.range (pieces content.length)).flatMap (chunk content stack) = content ↔
      0 ∉ content ∧
        ∀ i < pieces content.length, (stack i).getD (piece content i).length 0 = 0 := by
  have hstale : ∀ i, stale content stack i = [] ↔ (stack i).getD (piece content i).length 0 = 0 := by
    intro i
    rw [stale, cString_eq_nil_iff]
    simp
  constructor
  · intro heq
    have hzero : 0 ∉ content := by
      rw [← heq, List.mem_flatMap]
      rintro ⟨i, -, hmem⟩
      exact zero_not_mem_cString _ hmem
    refine ⟨hzero, fun i hi => (hstale i).mp ?_⟩
    have hlen : ((List.range (pieces content.length)).flatMap (chunk content stack)).length = _ :=
      length_flatMap_chunk hzero (pieces content.length)
    rw [heq, flatMap_pieces] at hlen
    have hnil : (List.range (pieces content.length)).flatMap (stale content stack) = [] :=
      List.length_eq_zero_iff.mp (by omega)
    exact List.flatMap_eq_nil_iff.mp hnil i (List.mem_range.mpr hi)
  · rintro ⟨hzero, hclean⟩
    conv_rhs => rw [← flatMap_pieces content]
    refine List.flatMap_congr fun i hi => ?_
    rw [chunk_eq hzero, (hstale i).mpr (hclean i (List.mem_range.mp hi)), List.append_nil]

/-- The file after `k` pieces. -/
def fileAt (content : Bytes) (k : Nat) : File :=
  { openMode := .readOnly, content := content, position := k * bufSize }

/-- The file after the piece number `k` has been read, good or not. -/
def fileRead (content : Bytes) (k : Nat) : File :=
  { openMode := .readOnly
    content := content
    position := k * bufSize + (piece content k).length
    good := (piece content k).length = bufSize }

theorem readMaxSize_fileAt (content : Bytes) (stack : Nat → Bytes) (k : Nat) :
    (fileAt content k).readMaxSize (stack k) bufSize =
      (chunk content stack k, fileRead content k) := by
  simp only [File.readMaxSize, File.read, fileAt, if_true]
  rfl

/-- There is another piece iff the end is not reached. -/
theorem atEnd_fileRead {k : Nat} (hmore : k < pieces content.length) :
    (k + 1 < pieces content.length ∧ (fileRead content k).atEnd = (false, fileAt content (k + 1))) ∨
    (k + 1 = pieces content.length ∧ ∃ f, (fileRead content k).atEnd = (true, f)) := by
  have hlen : (piece content k).length = min bufSize (content.length - k * bufSize) := by
    simp [piece]
  have hmul : (k + 1) * bufSize = k * bufSize + bufSize := Nat.succ_mul k bufSize
  by_cases hnext : k + 1 < pieces content.length
  · have hbound := (lt_pieces_iff.mp hnext).resolve_left (Nat.succ_ne_zero k)
    have hfull : (piece content k).length = bufSize := by omega
    have hgo : k * bufSize + bufSize < content.length := by omega
    refine .inl ⟨hnext, ?_⟩
    simp [File.atEnd, fileRead, fileAt, hfull, hgo, hmul]
  · have hbound : ¬((k + 1) * bufSize < content.length) := fun hlt =>
      hnext (lt_pieces_iff.mpr (.inr hlt))
    have hstart : k * bufSize ≤ content.length := by
      rcases lt_pieces_iff.mp hmore with rfl | hlt
      · simp
      · exact Nat.le_of_lt hlt
    have hend : ¬((fileRead content k).good = true ∧
        (fileRead content k).position < (fileRead content k).content.length) := by
      show ¬(_ ∧ k * bufSize + (piece content k).length < content.length)
      omega
    refine .inr ⟨Nat.le_antisymm hmore (Nat.not_lt.mp hnext),
      { fileRead content k with good := false }, ?_⟩
    have hopen : (fileRead content k).isOpen = true := rfl
    rw [File.atEnd, if_pos hopen, if_neg hend]

theorem writeCompleteCallback_of_read {c : HttpContext File} {file g f : File}
    {memory buffer : Bytes} {atEnd : Bool} (hfile : c.context = some file)
    (hread : file.readMaxSize memory bufSize = (buffer, g)) (hend : g.atEnd = (atEnd, f))
    (r : WriteResult) :
    writeCompleteCallback c memory r =
      (.send buffer r :: if atEnd then [.shutdown] else [], c.setContext (some f)) := by
  simp only [writeCompleteCallback, hfile, hread, hend]

/-- The callback number `k`, as long as there is a piece left. -/
theorem writeCompleteCallback_eq {c : HttpContext File} {k : Nat}
    (hfile : c.context = some (fileAt content k)) (hmore : k < pieces content.length)
    (r : WriteResult) :
    (k + 1 < pieces content.length ∧ writeCompleteCallback c (stack k) r =
      ([.send (chunk content stack k) r], c.setContext (some (fileAt content (k + 1))))) ∨
    (k + 1 = pieces content.length ∧ ∃ context, writeCompleteCallback c (stack k) r =
      ([.send (chunk content stack k) r, .shutdown], context)) := by
  rcases atEnd_fileRead hmore with ⟨hnext, hend⟩ | ⟨hlast, f, hend⟩
  · exact .inl ⟨hnext, writeCompleteCallback_of_read hfile (readMaxSize_fileAt content stack k) hend r⟩
  · exact .inr ⟨hlast, c.setContext (some f),
      writeCompleteCallback_of_read hfile (readMaxSize_fileAt content stack k) hend r⟩

/-! ## The pipe -/

/-- What there is to do: a callback, or bytes that wait. -/
def load (p : Pipe) : Nat := p.due + if p.pending = [] then 0 else 1

/-- The pipe is shut down behind `total`. -/
structure Ended (total : Bytes) (p : Pipe) : Prop where
  closed : p.isOpen = false
  bytes : p.written ++ p.pending = total
  shut : p.shut = if p.pending = [] then [total.length] else []
  light : load p ≤ 1

/-- The pipe is open, and the first `k` strings have been sent behind the head. -/
structure Reading (head content : Bytes) (stack : Nat → Bytes) (k : Nat) (p : Pipe) : Prop where
  more : k < pieces content.length
  isOpen : p.isOpen = true
  bytes : p.written ++ p.pending = head ++ (List.range k).flatMap (chunk content stack)
  shut : p.shut = []
  light : load p ≤ 1
  /-- Only an empty string can leave nothing to do. -/
  stalled : load p = 0 → ∃ i < k, chunk content stack i = []

variable {p : Pipe} {total head : Bytes} {k : Nat}

/-- Nothing to do. -/
theorem idle_of_load (hidle : load p = 0) : p.pending = [] ∧ p.due = 0 := by
  by_cases hnil : p.pending = []
  · rw [load, if_pos hnil] at hidle
    exact ⟨hnil, hidle⟩
  · rw [load, if_neg hnil] at hidle
    omega

/-- While bytes wait, no callback is due. -/
theorem due_of_pending (hlight : load p ≤ 1) (hne : p.pending ≠ []) : p.due = 0 := by
  rw [load, if_neg hne] at hlight
  omega

/-- What is sent comes behind what waits; only an empty string leaves nothing to do. -/
theorem load_send (hopen : p.isOpen = true) (hdue : p.due = 0) (data : Bytes) (r : WriteResult) :
    load (p.send data r) ≤ 1 ∧ (load (p.send data r) = 0 → data = []) ∧
      (p.send data r).written ++ (p.send data r).pending = p.written ++ p.pending ++ data ∧
      (p.send data r).shut = p.shut ∧ (p.send data r).isOpen = true := by
  unfold Pipe.send
  rw [if_pos hopen]
  by_cases hnil : p.pending = []
  · rw [if_pos hnil]
    cases r with
    | ok n =>
        dsimp only
        split
        next hall => simp [load, hnil, hdue, hopen]
        next hshort =>
          have hrest : data.drop n ≠ [] := mt List.drop_eq_nil_iff.mp hshort
          simp [load, hrest, hnil, hdue, hopen]
    | error errno =>
        by_cases hdata : data = [] <;> simp [load, hdata, hnil, hdue, hopen]
  · rw [if_neg hnil]
    simp [load, hnil, hdue, hopen]

theorem Ended.drain (h : Ended total p) (hne : p.pending ≠ []) (n : Nat) : Ended total (p.drain n) := by
  have hdue := due_of_pending h.light hne
  have hshut : p.shut = [] := h.shut.trans (if_neg hne)
  have hlen : total.length = p.written.length + p.pending.length := by
    rw [← h.bytes, List.length_append]
  unfold Pipe.drain
  split
  · exact ⟨h.closed, by simpa using h.bytes, by simp [h.closed, hshut, hlen], by simp [load, hdue]⟩
  next hshort =>
    have hrest : p.pending.drop n ≠ [] := mt List.drop_eq_nil_iff.mp hshort
    refine ⟨h.closed, ?_, hshut.trans (if_neg hrest).symm, by simp [load, hdue, hrest]⟩
    rw [List.append_assoc, List.take_append_drop]
    exact h.bytes

theorem Reading.drain (h : Reading head content stack k p) (hne : p.pending ≠ []) (n : Nat) :
    Reading head content stack k (p.drain n) := by
  have hdue := due_of_pending h.light hne
  unfold Pipe.drain
  split
  · exact ⟨h.more, h.isOpen, by simpa using h.bytes, by simp [h.isOpen, h.shut], by simp [load, hdue],
      by simp [load, hdue]⟩
  next hshort =>
    have hrest : p.pending.drop n ≠ [] := mt List.drop_eq_nil_iff.mp hshort
    refine ⟨h.more, h.isOpen, ?_, h.shut, by simp [load, hdue, hrest], by simp [load, hdue, hrest]⟩
    rw [List.append_assoc, List.take_append_drop]
    exact h.bytes

/-- A callback is taken from the queue. -/
theorem Ended.pop (h : Ended total p) : Ended total { p with due := p.due - 1 } := by
  refine ⟨h.closed, h.bytes, h.shut, Nat.le_trans ?_ h.light⟩
  exact Nat.add_le_add_right (Nat.sub_le p.due 1) _

/-- A closed pipe takes nothing. -/
theorem Ended.send (h : Ended total p) (data : Bytes) (r : WriteResult) : p.send data r = p := by
  unfold Pipe.send
  rw [h.closed]
  rfl

theorem Ended.shutdown (h : Ended total p) : p.shutdown = p := by
  unfold Pipe.shutdown
  rw [h.closed]
  rfl

/-- No callback is due, and `SHUT_WR` came once the pipe was closed and empty. -/
structure Quiet (p : Pipe) : Prop where
  due : p.due = 0
  shut : p.shut = if p.isOpen = true ∨ p.pending ≠ [] then [] else [p.written.length]

/-- A quiet pipe that is closed has nothing more to take. -/
theorem Quiet.ended (h : Quiet p) (hclosed : p.isOpen = false) : Ended (p.written ++ p.pending) p := by
  refine ⟨hclosed, rfl, h.shut.trans ?_, ?_⟩
  · by_cases hnil : p.pending = []
    · rw [if_neg (by simp [hclosed, hnil]), if_pos hnil, hnil, List.append_nil]
    · rw [if_pos (.inr hnil), if_neg hnil]
  · rw [load, h.due]
    split <;> decide

/-- An open pipe with everything sent is shut down. -/
theorem Ended.of_shutdown (hopen : p.isOpen = true) (hbytes : p.written ++ p.pending = total)
    (hshut : p.shut = []) (hlight : load p ≤ 1) : Ended total p.shutdown := by
  unfold Pipe.shutdown
  rw [if_pos hopen]
  refine ⟨rfl, hbytes, ?_, hlight⟩
  dsimp only
  split
  next hnil =>
    rw [← hbytes, hnil, hshut, List.append_nil]
    rfl
  next => exact hshut

/-- When a callback is due, nothing else is. -/
theorem load_pop (hlight : load p ≤ 1) (hdue : 0 < p.due) : load { p with due := p.due - 1 } = 0 := by
  by_cases hnil : p.pending = []
  · rw [load, if_pos hnil] at hlight
    rw [load, if_pos hnil]
    show p.due - 1 + 0 = 0
    omega
  · rw [load, if_neg hnil] at hlight
    omega

/-- The callback number `k` sends its string. -/
theorem Reading.send (h : Reading head content stack k p) (hdue : 0 < p.due) (r : WriteResult) :
    let q := Pipe.send { p with due := p.due - 1 } (chunk content stack k) r
    q.isOpen = true ∧ q.shut = [] ∧ load q ≤ 1 ∧ (load q = 0 → chunk content stack k = []) ∧
      q.written ++ q.pending = head ++ (List.range (k + 1)).flatMap (chunk content stack) := by
  have hlast : p.due - 1 = 0 := (idle_of_load (load_pop h.light hdue)).2
  obtain ⟨hlight, hempty, hbytes, hshut, hopen⟩ :=
    load_send (p := { p with due := p.due - 1 }) h.isOpen hlast (chunk content stack k) r
  refine ⟨hopen, hshut.trans h.shut, hlight, hempty, ?_⟩
  rw [hbytes, List.range_succ, List.flatMap_append, List.flatMap_singleton, ← List.append_assoc,
    ← h.bytes]

/-! ## The work left -/

/-- The bytes that wait and the callbacks that are due, with the turn that takes the bytes
    out. -/
def weight (p : Pipe) : Nat := p.pending.length + (if p.pending = [] then 0 else 2) + p.due

/-- The strings from `k` on. -/
def left (content : Bytes) (stack : Nat → Bytes) (k : Nat) : Nat :=
  ((List.range' k (pieces content.length - k)).map fun i => (chunk content stack i).length + 4).sum

theorem left_eq (stack : Nat → Bytes) (h : k < pieces content.length) :
    left content stack k = (chunk content stack k).length + 4 + left content stack (k + 1) := by
  obtain ⟨n, hn⟩ : ∃ n, pieces content.length - k = n + 1 := ⟨_, (Nat.succ_pred (by omega)).symm⟩
  have hn' : pieces content.length - (k + 1) = n := by omega
  rw [left, left, hn, hn', List.range'_succ, List.map_cons, List.sum_cons]

theorem weight_send (hopen : p.isOpen = true) (hidle : load p = 0) (data : Bytes) (r : WriteResult) :
    weight (p.send data r) ≤ data.length + 2 := by
  obtain ⟨hnil, hdue⟩ := idle_of_load hidle
  unfold Pipe.send
  rw [if_pos hopen, if_pos hnil]
  cases r with
  | ok n =>
      dsimp only
      split
      next hall =>
        simp only [weight, hnil, hdue, List.length_nil, if_true]
        omega
      next hshort =>
        have hlen := List.length_drop (i := n) (l := data)
        simp only [weight, hdue]
        split <;> omega
  | error errno =>
      simp only [weight, hdue]
      split <;> omega

theorem weight_shutdown : weight p.shutdown = weight p := by
  unfold Pipe.shutdown
  split <;> rfl

theorem weight_drain (hne : p.pending ≠ []) {n : Nat} (hn : 0 < n) : weight (p.drain n) < weight p := by
  have hpos := List.length_pos_iff.mpr hne
  unfold Pipe.drain
  split
  next hall =>
    simp only [weight, if_neg hne, List.length_nil, if_true]
    omega
  next hshort =>
    have hlen := List.length_drop (i := n) (l := p.pending)
    simp only [weight, if_neg hne]
    split <;> omega

/-! ## The steps -/

/-- The answer on its way: shut down behind `total`, or in the middle of the file. -/
structure Sending (head content : Bytes) (stack : Nat → Bytes) (total : Bytes) (w : World)
    (p : Pipe) : Prop where
  carries : Carries w.conn p
  phase : Ended total p ∨
    Reading head content stack w.calls p ∧ w.context.context = some (fileAt content w.calls) ∧
      total = head ++ (List.range (pieces content.length)).flatMap (chunk content stack)

/-- What is left to do, in steps: two for each unit of work and one for a swap. -/
def work (content : Bytes) (stack : Nat → Bytes) (w : World) (p : Pipe) : Nat :=
  2 * (weight p + if p.isOpen then left content stack w.calls else 0) +
    if w.conn.functors = [] ∧ w.conn.pendingFunctors ≠ [] then 1 else 0

variable {w w' : World}

theorem userCallback_carries {s : TcpConnection.World} (h : Carries s p) (data : Bytes)
    {r : WriteResult} (hr : r.Survives) :
    Carries (TcpConnection.userCallback s .writeComplete [.send data r]) (p.send data r) := by
  have hcalled : Carries (s.callback .writeComplete) p := { h with }
  exact TcpConnection.send_carries hcalled data hr

theorem userCallback_shutdown_carries {s : TcpConnection.World} (h : Carries s p) (data : Bytes)
    {r : WriteResult} (hr : r.Survives) :
    Carries (TcpConnection.userCallback s .writeComplete [.send data r, .shutdown])
      (p.send data r).shutdown := by
  have hcalled : Carries (s.callback .writeComplete) p := { h with }
  exact TcpConnection.shutdown_carries (TcpConnection.send_carries hcalled data hr)

/-- A callback does nothing to a pipe that is shut down. -/
theorem Ended.userCallback {s : TcpConnection.World} (h : Ended total p) (hs : Carries s p)
    (c : HttpContext File) (memory : Bytes) {r : WriteResult} (hr : r.Survives) :
    Carries (TcpConnection.userCallback s .writeComplete (writeCompleteCallback c memory r).1) p := by
  unfold writeCompleteCallback
  split
  next => exact { hs with }
  next file hfile =>
    dsimp only
    split
    · have hcalled := userCallback_shutdown_carries hs (file.readMaxSize memory bufSize).1 hr
      rwa [h.send, h.shutdown] at hcalled
    · have hcalled := userCallback_carries hs (file.readMaxSize memory bufSize).1 hr
      rwa [h.send] at hcalled

theorem work_lt {q : Pipe} (h : weight q + (if q.isOpen then left content stack w'.calls else 0) <
    weight p + if p.isOpen then left content stack w.calls else 0) :
    work content stack w' q < work content stack w p := by
  have hflag : (if w'.conn.functors = [] ∧ w'.conn.pendingFunctors ≠ [] then 1 else 0) ≤ 1 := by
    split <;> omega
  unfold work
  omega

theorem isOpen_drain (p : Pipe) (n : Nat) : (p.drain n).isOpen = p.isOpen := by
  unfold Pipe.drain
  split <;> rfl

/-- A writable event. -/
theorem handleWrite_sending {n : Nat} (h : Sending head content stack total w p)
    (hstep : step stack w (.handleWrite n) = some w') :
    Sending head content stack total w' (p.drain n) ∧
      work content stack w' (p.drain n) < work content stack w p := by
  simp only [step] at hstep
  split at hstep
  next hguard =>
    obtain ⟨conn, hconn, rfl⟩ := Option.map_eq_some_iff.mp hstep
    obtain ⟨-, hsteps⟩ := TcpConnection.steps_of_step hconn
    have hne : p.pending ≠ [] := h.carries.writing.mp hguard.1
    have hidle : w.conn.functors = [] := by
      cases hsteps with
      | handleEvent revents i hidle hkernel => exact hidle
    rw [TcpConnection.step_handleWrite h.carries hidle] at hconn
    cases hconn
    refine ⟨⟨TcpConnection.handleWrite_carries h.carries hne n, ?_⟩, work_lt ?_⟩
    · exact h.phase.imp (fun hend => hend.drain hne n)
        fun ⟨hreading, hfile, htotal⟩ => ⟨hreading.drain hne n, hfile, htotal⟩
    · rw [isOpen_drain]
      exact Nat.add_lt_add_right (weight_drain hne hguard.2) _
  next => cases hstep

/-- The functors are taken over. -/
theorem swapFunctors_sending (h : Sending head content stack total w p)
    (hstep : step stack w .swapFunctors = some w') :
    Sending head content stack total w' p ∧ work content stack w' p < work content stack w p := by
  simp only [step] at hstep
  split at hstep
  next hne =>
    obtain ⟨conn, hconn, rfl⟩ := Option.map_eq_some_iff.mp hstep
    obtain ⟨-, hsteps⟩ := TcpConnection.steps_of_step hconn
    have hidle : w.conn.functors = [] := by
      cases hsteps with
      | swapFunctors hidle => exact hidle
    rw [TcpConnection.step_swapFunctors h.carries hidle] at hconn
    cases hconn
    refine ⟨⟨TcpConnection.swapFunctors_carries h.carries hidle, h.phase⟩, ?_⟩
    simp [work, hidle, hne]
  next => cases hstep

/-- The callback at the head of the batch, with the string that it sends. -/
theorem exists_of_runFunctor {r : WriteResult} (h : Sending head content stack total w p)
    (hstep : step stack w (.runFunctor r) = some w') :
    r.Survives ∧ 0 < p.due ∧ ∃ conn, Carries conn { p with due := p.due - 1 } ∧
      w'.calls = w.calls + 1 ∧
      w'.context = (writeCompleteCallback w.context (stack w.calls) r).2 ∧
      w'.conn = TcpConnection.userCallback conn .writeComplete
        (writeCompleteCallback w.context (stack w.calls) r).1 := by
  simp only [step] at hstep
  split at hstep
  next hguard =>
    obtain ⟨hr, hhead⟩ := hguard
    obtain ⟨conn, hconn, rfl⟩ := Option.map_eq_some_iff.mp hstep
    obtain ⟨fs, hfs⟩ : ∃ fs, w.conn.functors = .writeCompleteCallback :: fs := by
      cases hcases : w.conn.functors with
      | nil =>
          rw [hcases] at hhead
          cases hhead
      | cons f fs =>
          rw [hcases] at hhead
          cases hhead
          exact ⟨fs, rfl⟩
    obtain ⟨hrun, hpopped, hdue⟩ := TcpConnection.step_runFunctor h.carries hfs r
      (writeCompleteCallback w.context (stack w.calls) r).1
    rw [hrun] at hconn
    cases hconn
    exact ⟨hr, hdue, _, hpopped, rfl, rfl, rfl⟩
  next => cases hstep

/-- In the middle of the file: the next string, or the last one and the shutdown. -/
theorem Reading.runFunctor {r : WriteResult} {conn : TcpConnection.World}
    (h : Reading head content stack w.calls p)
    (hfile : w.context.context = some (fileAt content w.calls))
    (htotal : total = head ++ (List.range (pieces content.length)).flatMap (chunk content stack))
    (hr : r.Survives) (hdue : 0 < p.due) (hpopped : Carries conn { p with due := p.due - 1 })
    (hcalls : w'.calls = w.calls + 1)
    (hcontext : w'.context = (writeCompleteCallback w.context (stack w.calls) r).2)
    (hconn : w'.conn = TcpConnection.userCallback conn .writeComplete
      (writeCompleteCallback w.context (stack w.calls) r).1) :
    ∃ q, Sending head content stack total w' q ∧
      work content stack w' q < work content stack w p := by
  obtain ⟨hopen, hshut, hlight, hempty, hbytes⟩ := h.send hdue r
  have hidle := load_pop h.light hdue
  have hweight := weight_send (p := { p with due := p.due - 1 }) h.isOpen hidle
    (chunk content stack w.calls) r
  have hleft := left_eq stack h.more
  rcases writeCompleteCallback_eq hfile h.more r with ⟨hnext, heq⟩ | ⟨hlast, context, heq⟩
  · -- one string less is left, and its bytes may wait now
    rw [heq] at hcontext hconn
    have hreading : Reading head content stack w'.calls
        (Pipe.send { p with due := p.due - 1 } (chunk content stack w.calls) r) := by
      rw [hcalls]
      exact ⟨hnext, hopen, hbytes, hshut, hlight, fun hzero =>
        ⟨w.calls, Nat.lt_succ_self _, hempty hzero⟩⟩
    refine ⟨_, ⟨?_, .inr ⟨hreading, ?_, htotal⟩⟩, work_lt ?_⟩
    · rw [hconn]
      exact userCallback_carries hpopped _ hr
    · rw [hcontext, hcalls]
      rfl
    · rw [if_pos hopen, if_pos h.isOpen, hleft, hcalls]
      omega
  · -- all strings are sent, so `total` is complete
    rw [heq] at hconn
    have hend : Ended total
        (Pipe.send { p with due := p.due - 1 } (chunk content stack w.calls) r).shutdown := by
      rw [htotal, ← hlast]
      exact Ended.of_shutdown hopen hbytes hshut hlight
    refine ⟨_, ⟨?_, .inl hend⟩, work_lt ?_⟩
    · rw [hconn]
      exact userCallback_shutdown_carries hpopped _ hr
    · rw [hend.closed, if_pos h.isOpen, hleft, weight_shutdown]
      simp only [Bool.false_eq_true, if_false]
      omega

/-- A callback: the next string, the last string, or nothing. -/
theorem runFunctor_sending {r : WriteResult} (h : Sending head content stack total w p)
    (hstep : step stack w (.runFunctor r) = some w') :
    ∃ q, Sending head content stack total w' q ∧
      work content stack w' q < work content stack w p := by
  obtain ⟨hr, hdue, conn, hpopped, hcalls, hcontext, hconn⟩ := exists_of_runFunctor h hstep
  rcases h.phase with hend | ⟨hreading, hfile, htotal⟩
  · refine ⟨{ p with due := p.due - 1 }, ⟨?_, .inl hend.pop⟩, work_lt ?_⟩
    · rw [hconn]
      exact hend.pop.userCallback hpopped w.context (stack w.calls) hr
    · have hlighter : weight { p with due := p.due - 1 } < weight p :=
        Nat.add_lt_add_left (Nat.sub_lt hdue Nat.one_pos) _
      simpa [hend.closed] using hlighter
  · exact hreading.runFunctor hfile htotal hr hdue hpopped hcalls hcontext hconn

theorem step_sending {a : Action} (h : Sending head content stack total w p)
    (hstep : step stack w a = some w') :
    ∃ q, Sending head content stack total w' q ∧
      work content stack w' q < work content stack w p := by
  cases a with
  | handleWrite n => exact ⟨_, handleWrite_sending h hstep⟩
  | swapFunctors => exact ⟨_, swapFunctors_sending h hstep⟩
  | runFunctor r => exact runFunctor_sending h hstep

/-- Where no step is left, nothing waits and nothing is due. -/
theorem load_of_stuck (h : Sending head content stack total w p)
    (hstuck : ∀ a, step stack w a = none) : load p = 0 := by
  have hidle : w.conn.functors = [] := by
    by_contra hne
    obtain ⟨f, fs, hfs⟩ := List.exists_cons_of_ne_nil hne
    have hqueue := h.carries.queue
    rw [hfs, List.cons_append] at hqueue
    have hf : f = .writeCompleteCallback :=
      List.eq_of_mem_replicate (hqueue ▸ List.mem_cons_self)
    have hrun := (TcpConnection.step_runFunctor h.carries hfs (.ok 0)
      (writeCompleteCallback w.context (stack w.calls) (.ok 0)).1).1
    have hnone := hstuck (.runFunctor (.ok 0))
    simp [step, hfs, hf, WriteResult.Survives, hrun] at hnone
  have hempty : w.conn.pendingFunctors = [] := by
    by_contra hne
    have hnone := hstuck .swapFunctors
    simp [step, hne, TcpConnection.step_swapFunctors h.carries hidle] at hnone
  have hnil : p.pending = [] := by
    by_contra hne
    have hnone := hstuck (.handleWrite 1)
    simp [step, h.carries.writing.mpr hne, TcpConnection.step_handleWrite h.carries hidle] at hnone
  have hdue : p.due = 0 := by
    have hqueue := h.carries.queue
    rw [hidle, hempty] at hqueue
    simpa using (congrArg List.length hqueue).symm
  rw [load, if_pos hnil, hdue]

/-! ## The result -/

/-- The strings of a delivered file are not empty, but for that of an empty file. -/
theorem chunk_ne_nil {i : Nat} (hzero : 0 ∉ content) (hi : i + 1 < pieces content.length) :
    chunk content stack i ≠ [] := by
  have hbound := (lt_pieces_iff.mp hi).resolve_left (Nat.succ_ne_zero i)
  have hpos := bufSize_pos
  have hmul : (i + 1) * bufSize = i * bufSize + bufSize := Nat.succ_mul i bufSize
  have hlen : (piece content i).length = bufSize := by
    simp only [piece, List.length_take, List.length_drop]
    omega
  rw [chunk_eq hzero]
  intro hnil
  rw [(List.append_eq_nil_iff.mp hnil).1] at hlen
  simp only [List.length_nil] at hlen
  omega

/-- At the end, what has arrived. -/
theorem delivered_iff_of_ended (h : Carries w.conn p) (hend : Ended total p) (hidle : load p = 0) :
    Delivered head content w ↔ total = head ++ content := by
  have hnil := (idle_of_load hidle).1
  have hbytes := hend.bytes
  have hshut := hend.shut
  rw [hnil, List.append_nil] at hbytes
  rw [hnil, if_pos rfl] at hshut
  rw [Delivered, h.written, h.shut, hbytes, hshut]
  constructor
  · rintro ⟨heq, -⟩
    exact heq
  · rintro rfl
    exact ⟨rfl, rfl⟩

/-- Where no step is left, the file has arrived iff it is what was sent behind the head. -/
theorem delivered_iff_of_stuck (h : Sending head content stack total w p)
    (hstuck : ∀ a, step stack w a = none) :
    Delivered head content w ↔ total = head ++ content := by
  have hidle := load_of_stuck h hstuck
  rcases h.phase with hend | ⟨hreading, -, htotal⟩
  · exact delivered_iff_of_ended h.carries hend hidle
  · -- an empty string in the middle of the file: the callback never comes again
    obtain ⟨i, hi, hempty⟩ := hreading.stalled hidle
    refine iff_of_false ?_ fun heq => ?_
    · rintro ⟨-, hshut⟩
      rw [h.carries.shut, hreading.shut] at hshut
      cases hshut
    · rw [htotal] at heq
      have hwhole := (flatMap_chunk_eq_iff content stack).mp (List.append_cancel_left heq)
      have hmore := hreading.more
      exact chunk_ne_nil hwhole.1 (by omega) hempty

/-- What an answer sends behind its head. -/
def sentBody (req : HttpRequest) (content : Bytes) (stack : Nat → Bytes) : Bytes :=
  if HttpServer.closeRequested req then []
  else (List.range (pieces content.length)).flatMap (chunk content stack)

theorem sentBody_eq_iff (req : HttpRequest) (content : Bytes) (stack : Nat → Bytes) :
    sentBody req content stack = content ↔ Whole req content stack := by
  unfold sentBody Whole
  split
  · exact eq_comm
  · exact flatMap_chunk_eq_iff content stack

theorem head_ne_nil (resp : HttpResponse) : resp.head ≠ [] := by
  unfold HttpResponse.head
  simp [crlf]

section dispatch

variable {fs : FileSystem} {conn : TcpConnection.World} {c : HttpContext File}

/-- What the connection has to send when the answer is on its way. -/
def sentBy (p : Pipe) (resp : HttpResponse) (body : Bytes) : Bytes :=
  if p.isOpen then p.written ++ p.pending ++ resp.head ++ body else p.written ++ p.pending

theorem sentBy_eq_iff (p : Pipe) (resp : HttpResponse) (body content : Bytes) :
    sentBy p resp body = p.written ++ p.pending ++ resp.head ++ content ↔
      p.isOpen = true ∧ body = content := by
  unfold sentBy
  cases p.isOpen with
  | true =>
      rw [if_pos rfl, List.append_right_inj]
      exact (and_iff_right rfl).symm
  | false =>
      -- not even the head is sent
      refine iff_of_false (fun heq => head_ne_nil resp ?_) nofun
      rw [if_neg Bool.false_ne_true, List.append_assoc _ resp.head] at heq
      exact (List.append_eq_nil_iff.mp (List.self_eq_append_right.mp heq)).1

theorem getFile_opened (hget : c.request.method = .get)
    (hfile : fs.openRead (filePath c.request) = some content) :
    ∃ resp : HttpResponse,
      getFile fs c { closeConnection := HttpServer.closeRequested c.request } =
        some ([.openRead (filePath c.request)], c.setContext (some (fileAt content 0)), resp, true) ∧
      resp.closeConnection = HttpServer.closeRequested c.request ∧ resp.body = [] := by
  simp only [getFile, hget, hfile, ne_eq, not_true_eq_false, if_false]
  exact ⟨_, rfl, rfl, rfl⟩

/-- The answer starts, behind what was sent before. -/
theorem onRequest_sending (hconn : Carries conn.setWriteCompleteCallback p) (hquiet : Quiet p)
    (hget : c.request.method = .get) (hfile : fs.openRead (filePath c.request) = some content)
    {r : WriteResult} (hr : r.Survives) (stack : Nat → Bytes) :
    ∃ resp w q, onRequest fs conn c r = some (resp, w) ∧
      Sending (p.written ++ p.pending ++ resp.head) content stack
        (sentBy p resp (sentBody c.request content stack)) w q := by
  obtain ⟨resp, hresp, hclose, hbody⟩ := getFile_opened hget hfile
  have hhead : resp.appendToBuffer [] = resp.head := by
    rw [HttpResponse.appendToBuffer, hbody, List.append_nil, List.nil_append]
  have hrun : onRequest fs conn c r = some (resp,
      { conn :=
          let sent := TcpConnection.send conn.setWriteCompleteCallback loopThread resp.head r
          if HttpServer.closeRequested c.request then TcpConnection.shutdown sent loopThread else sent
        context := (c.setContext (some (fileAt content 0))).reset }) := by
    simp only [onRequest, hresp, Option.map_some, if_true, hhead, hclose]
  have hsent := TcpConnection.send_carries hconn resp.head hr
  unfold sentBy sentBody
  cases hopen : p.isOpen with
  | true =>
      obtain ⟨hlight, hempty, hbytes, hshut, hsendable⟩ := load_send hopen hquiet.due resp.head r
      rw [hquiet.shut, if_pos (.inl hopen)] at hshut
      cases hcase : HttpServer.closeRequested c.request with
      | true =>
          -- shut down behind the head: no string will be taken
          rw [hcase] at hrun
          refine ⟨resp, _, (p.send resp.head r).shutdown, hrun, ?_, .inl ?_⟩
          · exact TcpConnection.shutdown_carries hsent
          · rw [if_pos rfl, if_pos rfl, List.append_nil]
            exact Ended.of_shutdown hsendable hbytes hshut hlight
      | false =>
          rw [hcase] at hrun
          refine ⟨resp, _, p.send resp.head r, hrun, hsent, .inr ⟨?_, rfl, rfl⟩⟩
          refine ⟨Nat.succ_pos _, hsendable, ?_, hshut, hlight, fun hzero => ?_⟩
          · rw [hbytes]
            exact (List.append_nil _).symm
          · exact absurd (hempty hzero) (head_ne_nil resp)
  | false =>
      -- an earlier answer has shut the connection down: nothing is taken at all
      have hend : Ended (p.written ++ p.pending) p := hquiet.ended hopen
      rw [hend.send] at hsent
      have hshut := TcpConnection.shutdown_carries hsent
      rw [hend.shutdown] at hshut
      refine ⟨resp, _, p, hrun, ?_, .inl hend⟩
      dsimp only
      split
      · exact hshut
      · exact hsent

/-- The work left bounds every run. -/
theorem work_bounds : ∀ w a w' n,
    (∃ p, Sending head content stack total w p ∧ n = work content stack w p) →
    step stack w a = some w' →
      ∃ m < n, ∃ p, Sending head content stack total w' p ∧ m = work content stack w' p := by
  rintro w a w' n ⟨p, h, rfl⟩ hstep
  obtain ⟨q, hq, hlt⟩ := step_sending h hstep
  exact ⟨_, hlt, q, hq, rfl⟩

theorem sending_of_run {actions : List Action} (h : Sending head content stack total w p)
    (hrun : run (step stack) w actions = some w') : ∃ q, Sending head content stack total w' q := by
  refine run_invariant (I := fun w => ∃ p, Sending head content stack total w p) ?_ ⟨p, h⟩ hrun
  rintro w a w' ⟨p, h⟩ hstep
  obtain ⟨q, hq, -⟩ := step_sending h hstep
  exact ⟨q, hq⟩

/-- For every `GET` request whose file opens, on a connection with any bytes out and
    waiting, with any results of the writes that the connection survives: the answer comes
    to its end, and then the head and the file are out behind what was sent before, and
    `SHUT_WR` behind them, iff the connection was open, and the request, the file and the
    memory are as in `Whole`. -/
theorem file_delivered_iff (fs : FileSystem) (conn : TcpConnection.World) (p : Pipe)
    (c : HttpContext File) (content : Bytes) (stack : Nat → Bytes) (r : WriteResult)
    (hconn : Carries conn.setWriteCompleteCallback p) (hquiet : Quiet p)
    (hget : c.request.method = .get) (hfile : fs.openRead (filePath c.request) = some content)
    (hr : r.Survives) :
    ∃ resp w, onRequest fs conn c r = some (resp, w) ∧
      (∃ bound, ∀ actions t, run (step stack) w actions = some t → actions.length ≤ bound) ∧
      ∀ actions t, run (step stack) w actions = some t → (∀ a, step stack t a = none) →
        (Delivered (p.written ++ p.pending ++ resp.head) content t ↔
          p.isOpen = true ∧ Whole c.request content stack) := by
  obtain ⟨resp, w, q, hstart, hsending⟩ := onRequest_sending hconn hquiet hget hfile hr stack
  refine ⟨resp, w, hstart, ⟨work content stack w q, fun actions t hrun => ?_⟩,
    fun actions t hrun hstuck => ?_⟩
  · exact length_le_of_run work_bounds ⟨q, hsending, rfl⟩ hrun
  · obtain ⟨q, hq⟩ := sending_of_run hsending hrun
    rw [delivered_iff_of_stuck hq hstuck, sentBy_eq_iff, sentBody_eq_iff]

end dispatch

/-! ## Inputs -/

/-- An established connection. -/
def established : TcpConnection.World :=
  TcpConnection.connectEstablished (TcpConnection.newConnection 1 3 Epoll.empty false false 0) []

theorem established_carries : Carries established.setWriteCompleteCallback Pipe.new :=
  TcpConnection.connectEstablished_carries 1 3 false 0 rfl rfl rfl

theorem new_quiet : Quiet Pipe.new := ⟨rfl, rfl⟩

/-- A request for a file, without a `Connection` header. -/
def getRequest (version : Version) : HttpContext File :=
  { request := { method := .get, version := version, path := ascii "/f".toList } }

def oneFile (content : Bytes) : FileSystem := ⟨fun _ => some content, fun _ => false, fun _ => some 0⟩

/-- Memory with zeros everywhere. -/
def clean : Nat → Bytes := fun _ => []

theorem file_delivered_iff_oneByte :
    ∃ resp w, onRequest (oneFile [97]) established (getRequest .http11) (.ok 9) = some (resp, w) ∧
      ∀ actions t, run (step clean) w actions = some t → (∀ a, step clean t a = none) →
        Delivered resp.head [97] t := by
  obtain ⟨resp, w, hstart, -, hiff⟩ := file_delivered_iff (oneFile [97]) established Pipe.new
    (getRequest .http11) [97] clean (.ok 9) established_carries new_quiet rfl rfl (by decide)
  have hwhole : Whole (getRequest .http11).request [97] clean := by
    refine ⟨by decide, fun i _ => rfl⟩
  exact ⟨resp, w, hstart, fun actions t hrun hstuck => (hiff actions t hrun hstuck).mpr ⟨rfl, hwhole⟩⟩

/-- An answer that comes to its end without the file. -/
def NotDelivered (version : Version) (content : Bytes) : Prop :=
  ∃ resp w actions t, onRequest (oneFile content) established (getRequest version) (.ok 9) =
      some (resp, w) ∧
    run (step clean) w actions = some t ∧ (∀ a, step clean t a = none) ∧
      ¬Delivered resp.head content t

theorem notDelivered_of_not_whole {version : Version} {content : Bytes}
    (h : ¬Whole (getRequest version).request content clean) : NotDelivered version content := by
  have hfile : (oneFile content).openRead (filePath (getRequest version).request) = some content := rfl
  obtain ⟨resp, w, p, hstart, hsending⟩ :=
    onRequest_sending established_carries new_quiet rfl hfile (r := .ok 9) (by decide) clean
  obtain ⟨actions, t, hrun, hstuck⟩ := exists_stuck work_bounds ⟨p, hsending, rfl⟩
  obtain ⟨q, hq⟩ := sending_of_run hsending hrun
  refine ⟨resp, w, actions, t, hstart, hrun, hstuck, fun hdelivered => h ?_⟩
  have hsent := (delivered_iff_of_stuck hq hstuck).mp hdelivered
  exact (sentBody_eq_iff _ _ _).mp ((sentBy_eq_iff _ _ _ _).mp hsent).2

/-- A version 1.0 request is answered with the head only; of a file with a zero the part
    before it arrives. -/
theorem file_not_delivered : NotDelivered .http10 [97] ∧ NotDelivered .http11 [97, 0, 98] := by
  refine ⟨notDelivered_of_not_whole ?_, notDelivered_of_not_whole ?_⟩
  · intro h
    cases h
  · intro h
    exact h.1 (by decide)

end Transfer
end Youth.Http
