/-
  Youth.Net.Buffer.Spec

  What each `Buffer` operation does to the readable bytes.

  `Yields x bytes` packages the three facts a caller needs of an operation: its
  assertions held, the indices are still in order, and the readable region is
  `bytes`.  One `_yields` lemma per operation, each under the precondition the
  source asserts; later modules cite these and never unfold the operations.
-/

import Youth.Net.Buffer.Basic

namespace Youth.Net
namespace Buffer

open Youth.Lib

/-- `m_readerIndex <= m_writerIndex <= m_bufferVec.size()`, and the vector still
    holds the front reserve that `retrieveAll` goes back to. -/
structure Inv (b : Buffer) : Prop where
  reader_le : b.readerIndex ≤ b.writerIndex
  writer_le : b.writerIndex ≤ b.bufferVec.length
  reserve_le : kCheapPrepend ≤ b.bufferVec.length

/-- The operation asserted nothing false and left exactly `bytes` readable. -/
structure Yields (x : Checked Assert Buffer) (bytes : List UInt8) : Prop where
  ok : x.Ok
  inv : x.val.Inv
  readable : x.val.readable = bytes

variable {b : Buffer}

theorem length_readable (h : b.Inv) : b.readable.length = b.readableBytes :=
  length_slice h.writer_le

theorem readable_eq_nil_iff (h : b.Inv) : b.readable = [] ↔ b.readableBytes = 0 := by
  rw [← length_readable h, List.length_eq_zero_iff]

/-- The bytes at `peek()`, as long as they are readable ones. -/
theorem slice_peek (h : b.Inv) {len : Nat} (hlen : len ≤ b.readableBytes) :
    slice b.bufferVec b.readerIndex (b.readerIndex + len) = b.readable.take len := by
  have hreader := h.reader_le
  unfold readableBytes at hlen
  rw [readable, take_slice (by omega)]

/-- The memory from `peek()` on: the readable bytes, then the writable region. -/
theorem drop_readerIndex (h : b.Inv) :
    b.bufferVec.drop b.readerIndex = b.readable ++ b.bufferVec.drop b.writerIndex := by
  have hlen : b.writerIndex = b.readerIndex + (b.writerIndex - b.readerIndex) :=
    (Nat.add_sub_cancel' h.reader_le).symm
  conv_rhs => rw [hlen]
  rw [readable, slice, ← List.drop_drop, List.take_append_drop]

/-- `peekInt` reads the first `w` readable bytes. -/
theorem peekInt_val (h : b.Inv) {w : Nat} (hw : w ≤ b.readableBytes) :
    (b.peekInt w).val = beInt w (b.readable.take w) := by
  simp only [peekInt, Checked.val_bind, Checked.val_pure, slice_peek h hw]

/-! ## Construction and dropping everything -/

theorem new_inv (initialSize : Nat) : (new initialSize).Inv where
  reader_le := Nat.le_refl _
  writer_le := by simp [new]
  reserve_le := by simp [new]

@[simp] theorem readable_new (initialSize : Nat) : (new initialSize).readable = [] :=
  slice_self _ _

/-- The three assertions of the constructor. -/
theorem new_sizes (initialSize : Nat) :
    (new initialSize).readableBytes = 0 ∧ (new initialSize).writableBytes = initialSize ∧
      (new initialSize).prependableBytes = kCheapPrepend := by
  refine ⟨?_, ?_, rfl⟩
  · simp [new, readableBytes]
  · simp [new, writableBytes]

@[simp] theorem readable_retrieveAll (b : Buffer) : b.retrieveAll.readable = [] :=
  slice_self _ _

theorem retrieveAll_inv (h : b.Inv) : b.retrieveAll.Inv where
  reader_le := Nat.le_refl _
  writer_le := h.reserve_le
  reserve_le := h.reserve_le

/-! ## Taking bytes from the front -/

theorem retrieve_yields (h : b.Inv) {len : Nat} (hlen : len ≤ b.readableBytes) :
    Yields (b.retrieve len) (b.readable.drop len) := by
  by_cases hlt : len < b.readableBytes
  · have hval : (b.retrieve len).val = { b with readerIndex := b.readerIndex + len } := by
      simp [retrieve, hlt]
    refine ⟨by simp [retrieve, hlen, hlt], ?_, ?_⟩
    · rw [hval]
      unfold readableBytes at hlt
      exact ⟨by show b.readerIndex + len ≤ b.writerIndex; omega, h.writer_le, h.reserve_le⟩
    · rw [hval]
      exact (drop_slice _ _ _ _).symm
  · -- everything is taken: the code resets both indices instead of moving one
    have hval : (b.retrieve len).val = b.retrieveAll := by simp [retrieve, hlt]
    refine ⟨by simp [retrieve, hlen, hlt], ?_, ?_⟩
    · rw [hval]
      exact retrieveAll_inv h
    · rw [hval, readable_retrieveAll, List.drop_eq_nil_of_le]
      rw [length_readable h]
      omega

theorem retrieveUntil_yields (h : b.Inv) {stop : Nat} (hlo : b.readerIndex ≤ stop)
    (hhi : stop ≤ b.writerIndex) :
    Yields (b.retrieveUntil stop) (b.readable.drop (stop - b.readerIndex)) := by
  have hlen : stop - b.readerIndex ≤ b.readableBytes := by
    unfold readableBytes
    omega
  have hr := retrieve_yields h hlen
  exact ⟨by simpa [retrieveUntil, hlo, hhi] using hr.ok, hr.inv, hr.readable⟩

theorem retrieveAsString_fst (h : b.Inv) {len : Nat} (hlen : len ≤ b.readableBytes) :
    (b.retrieveAsString len).val.1 = b.readable.take len :=
  slice_peek h hlen

/-- `retrieveAsString` leaves the buffer that `retrieve` leaves. -/
theorem retrieveAsString_yields (h : b.Inv) {len : Nat} (hlen : len ≤ b.readableBytes) :
    Yields (Prod.snd <$> b.retrieveAsString len) (b.readable.drop len) := by
  have hr := retrieve_yields h hlen
  exact ⟨by simpa [retrieveAsString, hlen] using hr.ok, hr.inv, hr.readable⟩

/-! ## Making room -/

/-- `makeSpace` is only called when the room is missing; then its move branch is
    only taken with the reader past the front reserve. -/
theorem makeSpace_yields (h : b.Inv) {len : Nat} (hlt : b.writableBytes < len) :
    Yields (b.makeSpace len) b.readable ∧ len ≤ (b.makeSpace len).val.writableBytes := by
  have hreader := h.reader_le
  have hwriter := h.writer_le
  by_cases hgrow : b.writableBytes + b.prependableBytes < len + kCheapPrepend
  · -- not even with the front: the vector grows, nothing moves
    have hval : (b.makeSpace len).val =
        { b with bufferVec := resize 0 (b.writerIndex + len) b.bufferVec } := by
      simp [makeSpace, hgrow]
    have hreserve := h.reserve_le
    refine ⟨⟨by simp [makeSpace, hgrow], ?_, ?_⟩, ?_⟩
    · rw [hval]
      unfold writableBytes at hlt
      refine ⟨hreader, ?_, ?_⟩ <;> simp only [length_resize] <;> omega
    · rw [hval]
      exact slice_resize hwriter (Nat.le_add_right _ _)
    · rw [hval]
      simp only [writableBytes, length_resize]
      omega
  · -- the room is there, split between the front and the back: the bytes move down
    have hmove : kCheapPrepend < b.readerIndex := by
      unfold prependableBytes at hgrow
      omega
    have hcopy : copyWithin b.bufferVec b.readerIndex kCheapPrepend
        (b.writerIndex - b.readerIndex) = splice b.bufferVec kCheapPrepend b.readable := by
      rw [copyWithin_eq_splice (by omega) (by omega), Nat.add_sub_cancel' hreader, readable]
    have hval : (b.makeSpace len).val =
        { bufferVec := splice b.bufferVec kCheapPrepend b.readable
          readerIndex := kCheapPrepend
          writerIndex := kCheapPrepend + b.readableBytes } := by
      simp [makeSpace, hgrow, hcopy]
    have hlen : b.readable.length = b.writerIndex - b.readerIndex := length_readable h
    have hsize : (splice b.bufferVec kCheapPrepend b.readable).length = b.bufferVec.length :=
      length_splice (by omega)
    refine ⟨⟨by simp [makeSpace, hgrow, hmove, readableBytes], ?_, ?_⟩, ?_⟩
    · rw [hval]
      refine ⟨by simp, ?_, ?_⟩
      · simp only [hsize, readableBytes]
        omega
      · simp only [hsize]
        exact h.reserve_le
    · rw [hval]
      show slice _ kCheapPrepend (kCheapPrepend + b.readableBytes) = b.readable
      rw [← length_readable h]
      exact slice_splice_at h.reserve_le
    · rw [hval]
      simp only [writableBytes, prependableBytes, readableBytes] at hgrow ⊢
      rw [hsize]
      omega

/-- `ensureWritableBytes(len)` leaves at least `len` writable bytes. -/
theorem ensureWritableBytes_yields (h : b.Inv) (len : Nat) :
    Yields (b.ensureWritableBytes len) b.readable ∧
      len ≤ (b.ensureWritableBytes len).val.writableBytes := by
  by_cases hlt : b.writableBytes < len
  · obtain ⟨hy, hroom⟩ := makeSpace_yields h hlt
    have hval : (b.ensureWritableBytes len).val = (b.makeSpace len).val := by
      simp [ensureWritableBytes, hlt]
    rw [hval]
    refine ⟨⟨?_, by rw [hval]; exact hy.inv, by rw [hval]; exact hy.readable⟩, hroom⟩
    simp only [ensureWritableBytes, if_pos hlt, Checked.ok_bind, Checked.ok_check, Checked.ok_pure]
    exact ⟨hy.ok, hroom, trivial⟩
  · have hroom : len ≤ b.writableBytes := by omega
    have hval : (b.ensureWritableBytes len).val = b := by simp [ensureWritableBytes, hlt]
    rw [hval]
    refine ⟨⟨?_, by rw [hval]; exact h, by rw [hval]⟩, hroom⟩
    simp [ensureWritableBytes, hlt, hroom]

/-- Making room never moves the reader into the front reserve. -/
theorem kCheapPrepend_le_ensureWritableBytes (h : kCheapPrepend ≤ b.readerIndex) (len : Nat) :
    kCheapPrepend ≤ (b.ensureWritableBytes len).val.readerIndex := by
  by_cases hlt : b.writableBytes < len
  · by_cases hgrow : b.writableBytes + b.prependableBytes < len + kCheapPrepend
    · simpa [ensureWritableBytes, makeSpace, hlt, hgrow] using h
    · simp [ensureWritableBytes, makeSpace, hlt, hgrow]
  · simpa [ensureWritableBytes, hlt] using h

/-! ## Adding bytes -/

/-- Bytes stored at `beginWrite()` and published by `hasWritten(n)`. -/
theorem hasWritten_yields (h : b.Inv) {data : List UInt8} {n : Nat} (hn : n ≤ data.length)
    (hroom : data.length ≤ b.writableBytes) :
    Yields ((b.storeAtBeginWrite data).hasWritten n) (b.readable ++ data.take n) := by
  have hreader := h.reader_le
  have hwriter := h.writer_le
  unfold writableBytes at hroom
  have hsize : (splice b.bufferVec b.writerIndex data).length = b.bufferVec.length :=
    length_splice (by omega)
  refine ⟨?_, ⟨?_, ?_, ?_⟩, ?_⟩
  · simp only [hasWritten, storeAtBeginWrite, writableBytes, hsize, Checked.ok_bind,
      Checked.ok_check, Checked.ok_pure, and_true]
    omega
  · show b.readerIndex ≤ b.writerIndex + n
    omega
  · show b.writerIndex + n ≤ (splice b.bufferVec b.writerIndex data).length
    omega
  · show kCheapPrepend ≤ (splice b.bufferVec b.writerIndex data).length
    rw [hsize]
    exact h.reserve_le
  · -- the old bytes in front of `writerIndex`, the first `n` new ones behind it
    show slice (splice b.bufferVec b.writerIndex data) b.readerIndex (b.writerIndex + n) = _
    rw [← slice_append_slice hreader (Nat.le_add_right _ n), slice_splice_before hwriter,
      ← take_slice (Nat.add_le_add_left hn _), slice_splice_at hwriter, readable]

theorem append_yields (h : b.Inv) (data : List UInt8) :
    Yields (b.append data) (b.readable ++ data) := by
  obtain ⟨hy, hroom⟩ := ensureWritableBytes_yields h data.length
  have hw := hasWritten_yields hy.inv (Nat.le_refl data.length) hroom
  rw [List.take_length, hy.readable] at hw
  refine ⟨?_, hw.inv, hw.readable⟩
  rw [append, Checked.ok_bind]
  exact ⟨hy.ok, hw.ok⟩

/-- Appending nothing is no change at all. -/
theorem append_nil (b : Buffer) : (b.append []).val = b := by
  have hsplice : splice b.bufferVec b.writerIndex [] = b.bufferVec := by
    simp [splice]
  simp [append, ensureWritableBytes, storeAtBeginWrite, hasWritten, hsplice]

theorem unwrite_yields (h : b.Inv) {len : Nat} (hlen : len ≤ b.readableBytes) :
    Yields (b.unwrite len) (b.readable.take (b.readableBytes - len)) := by
  have hreader := h.reader_le
  have hwriter := h.writer_le
  unfold readableBytes at hlen
  refine ⟨by simp [unwrite, readableBytes, hlen], ⟨?_, ?_, h.reserve_le⟩, ?_⟩
  · show b.readerIndex ≤ b.writerIndex - len
    omega
  · show b.writerIndex - len ≤ b.bufferVec.length
    omega
  · show slice b.bufferVec b.readerIndex (b.writerIndex - len) = _
    have hstop : b.readerIndex + (b.readableBytes - len) = b.writerIndex - len := by
      unfold readableBytes
      omega
    rw [readable, take_slice (by unfold readableBytes; omega), hstop]

theorem prepend_yields (h : b.Inv) {data : List UInt8} (hlen : data.length ≤ b.prependableBytes) :
    Yields (b.prepend data) (data ++ b.readable) := by
  have hreader := h.reader_le
  have hwriter := h.writer_le
  unfold prependableBytes at hlen
  have hstop : b.readerIndex - data.length + data.length = b.readerIndex := by omega
  have hsize : (splice b.bufferVec (b.readerIndex - data.length) data).length =
      b.bufferVec.length := length_splice (by omega)
  refine ⟨by simp [prepend, prependableBytes, hlen], ⟨?_, ?_, ?_⟩, ?_⟩
  · show b.readerIndex - data.length ≤ b.writerIndex
    omega
  · show b.writerIndex ≤ (splice b.bufferVec (b.readerIndex - data.length) data).length
    omega
  · show kCheapPrepend ≤ (splice b.bufferVec (b.readerIndex - data.length) data).length
    rw [hsize]
    exact h.reserve_le
  · show slice (splice b.bufferVec (b.readerIndex - data.length) data)
      (b.readerIndex - data.length) b.writerIndex = _
    -- the new bytes end where the readable ones begin
    have hat : slice (splice b.bufferVec (b.readerIndex - data.length) data)
        (b.readerIndex - data.length) b.readerIndex = data := by
      conv_lhs => rw [← hstop]
      rw [Nat.add_sub_cancel]
      exact slice_splice_at (by omega)
    rw [← slice_append_slice (by omega) hreader, hat, slice_splice_after (by omega) (by omega),
      readable]

/-! ## Rebuilding and reading from a descriptor -/

theorem toStringPiece_eq (h : b.Inv) (hlt : b.readableBytes < 2 ^ 31) :
    b.toStringPiece = b.readable := by
  rw [toStringPiece, sizeOfInt_intOfSize hlt, slice_peek h (Nat.le_refl _)]
  exact List.take_of_length_le (by rw [length_readable h])

theorem shrink_yields (h : b.Inv) (hlt : b.readableBytes < 2 ^ 31) (reserve : Nat) :
    Yields (b.shrink reserve) b.readable := by
  obtain ⟨hroom, -⟩ := ensureWritableBytes_yields (new_inv kInitialSize) (b.readableBytes + reserve)
  have happ := append_yields hroom.inv b.toStringPiece
  rw [hroom.readable, readable_new, List.nil_append, toStringPiece_eq h hlt] at happ
  -- by rewriting, so that the fresh buffer is never evaluated
  refine ⟨?_, ?_, ?_⟩
  · simp only [shrink, Checked.ok_bind, Checked.ok_pure, and_true, toStringPiece_eq h hlt]
    exact ⟨hroom.ok, happ.ok⟩
  · simp only [shrink, swap, Checked.val_bind, Checked.val_pure, toStringPiece_eq h hlt]
    exact happ.inv
  · simp only [shrink, swap, Checked.val_bind, Checked.val_pure, toStringPiece_eq h hlt]
    exact happ.readable

/-- `readFd` appends the delivered bytes, through `extrabuf` or not. -/
theorem readFd_ok_yields (h : b.Inv) (data : List UInt8) :
    Yields (Prod.snd <$> b.readFd (.ok data)) (b.readable ++ data) ∧
      (b.readFd (.ok data)).val.1 = .ok data.length := by
  have hwriter := h.writer_le
  by_cases hfit : data.length ≤ b.writableBytes
  · have hw := hasWritten_yields h (Nat.le_refl data.length) hfit
    rw [List.take_length] at hw
    refine ⟨⟨by simp [readFd, hfit], ?_, ?_⟩, by simp [readFd, hfit]⟩
    · simpa [readFd, hfit, List.take_of_length_le hfit, hasWritten] using hw.inv
    · simpa [readFd, hfit, List.take_of_length_le hfit, hasWritten] using hw.readable
  · -- the region is filled to the end and the rest comes out of `extrabuf`
    have hlen : (data.take b.writableBytes).length = b.writableBytes := by
      rw [List.length_take]
      omega
    have hw := hasWritten_yields h (Nat.le_of_eq hlen.symm) (Nat.le_of_eq hlen)
    rw [List.take_of_length_le (Nat.le_of_eq hlen)] at hw
    have hend : b.writerIndex + b.writableBytes =
        (b.storeAtBeginWrite (data.take b.writableBytes)).bufferVec.length := by
      have hsize : (splice b.bufferVec b.writerIndex (data.take b.writableBytes)).length =
          b.bufferVec.length := length_splice (by rw [hlen, writableBytes]; omega)
      rw [storeAtBeginWrite, hsize, writableBytes]
      omega
    have hfull : ((b.storeAtBeginWrite (data.take b.writableBytes)).hasWritten
        b.writableBytes).val = { b.storeAtBeginWrite (data.take b.writableBytes) with
          writerIndex := (b.storeAtBeginWrite (data.take b.writableBytes)).bufferVec.length } := by
      rw [← hend]
      rfl
    have hrest : (data.drop b.writableBytes).take (data.length - b.writableBytes) =
        data.drop b.writableBytes := List.take_of_length_le (by rw [List.length_drop])
    have happ := append_yields hw.inv (data.drop b.writableBytes)
    rw [hw.readable, List.append_assoc, List.take_append_drop, hfull] at happ
    refine ⟨⟨?_, ?_, ?_⟩, by simp [readFd, hfit]⟩
    · simpa [readFd, hfit, hrest] using happ.ok
    · simpa [readFd, hfit, hrest] using happ.inv
    · simpa [readFd, hfit, hrest] using happ.readable

end Buffer
end Youth.Net
