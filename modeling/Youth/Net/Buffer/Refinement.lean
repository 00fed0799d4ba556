/-
  Youth.Net.Buffer.Refinement

  A `Buffer` is a byte list.

  The concrete machine is a pool of buffers, each made with its own initial size,
  on which any of the `Buffer` operations is called within its asserted
  precondition and with fewer than 2^31 bytes held or requested.  The abstract
  machine is a pool of byte lists: append at the back, drop from the front, push
  at the front, drop from the back.  `buffer_run_refines` relates the two over whole
  runs; the assertions along the run are collected in `Pool.faults`.
-/

import Mathlib.Logic.Function.Basic
import Youth.Net.Buffer.Spec

namespace Youth.Net
namespace Buffer

open Youth.Lib

/-- One call on one buffer. -/
inductive Op
  | append (data : List UInt8)
  | ensureWritableBytes (len : Nat)
  /-- `data` stored at `beginWrite()`, then `hasWritten(n)`. -/
  | write (data : List UInt8) (n : Nat)
  | unwrite (len : Nat)
  | retrieve (len : Nat)
  /-- `retrieveUntil(peek() + offset)`. -/
  | retrieveUntil (offset : Nat)
  | retrieveAll
  | retrieveAsString (len : Nat)
  | prepend (data : List UInt8)
  | shrink (reserve : Nat)
  /-- `readFd`, with what the kernel's `readv` did. -/
  | readFd (result : Except Nat (List UInt8))

/-- The precondition the source asserts, and fewer than 2^31 bytes requested. -/
def Op.Pre (b : Buffer) : Op → Prop
  | .append data => data.length < 2 ^ 31
  | .ensureWritableBytes len => len < 2 ^ 31
  | .write data n => n ≤ data.length ∧ data.length ≤ b.writableBytes
  | .unwrite len => len ≤ b.readableBytes
  | .retrieve len => len ≤ b.readableBytes
  | .retrieveUntil offset => b.readerIndex + offset ≤ b.writerIndex
  | .retrieveAll => True
  | .retrieveAsString len => len ≤ b.readableBytes
  | .prepend data => data.length ≤ b.prependableBytes
  | .shrink reserve => reserve < 2 ^ 31
  | .readFd (.ok data) => data.length ≤ b.readvCapacity
  | .readFd (.error _) => True

instance (b : Buffer) : (op : Op) → Decidable (op.Pre b)
  | .append _ => Nat.decLt _ _
  | .ensureWritableBytes _ => Nat.decLt _ _
  | .write _ _ => instDecidableAnd
  | .unwrite _ => Nat.decLe _ _
  | .retrieve _ => Nat.decLe _ _
  | .retrieveUntil _ => Nat.decLe _ _
  | .retrieveAll => isTrue trivial
  | .retrieveAsString _ => Nat.decLe _ _
  | .prepend _ => Nat.decLe _ _
  | .shrink _ => Nat.decLt _ _
  | .readFd (.ok _) => Nat.decLe _ _
  | .readFd (.error _) => isTrue trivial

/-- The call on the concrete buffer. -/
def Op.exec (b : Buffer) : Op → Checked Assert Buffer
  | .append data => b.append data
  | .ensureWritableBytes len => b.ensureWritableBytes len
  | .write data n => (b.storeAtBeginWrite data).hasWritten n
  | .unwrite len => b.unwrite len
  | .retrieve len => b.retrieve len
  | .retrieveUntil offset => b.retrieveUntil (b.readerIndex + offset)
  | .retrieveAll => pure b.retrieveAll
  | .retrieveAsString len => Prod.snd <$> b.retrieveAsString len
  | .prepend data => b.prepend data
  | .shrink reserve => b.shrink reserve
  | .readFd result => Prod.snd <$> b.readFd result

/-- The same call on a byte list. -/
def Op.abs (bytes : List UInt8) : Op → List UInt8
  | .append data => bytes ++ data
  | .ensureWritableBytes _ => bytes
  | .write data n => bytes ++ data.take n
  | .unwrite len => bytes.take (bytes.length - len)
  | .retrieve len => bytes.drop len
  | .retrieveUntil offset => bytes.drop offset
  | .retrieveAll => []
  | .retrieveAsString len => bytes.drop len
  | .prepend data => data ++ bytes
  | .shrink _ => bytes
  | .readFd (.ok data) => bytes ++ data
  | .readFd (.error _) => bytes

/-- One operation, within its precondition, refines its abstract counterpart. -/
theorem exec_yields {b : Buffer} (h : b.Inv) (hheld : b.readableBytes < 2 ^ 31) (op : Op)
    (hpre : op.Pre b) : Yields (op.exec b) (op.abs b.readable) := by
  cases op with
  | append data => exact append_yields h data
  | ensureWritableBytes len => exact (ensureWritableBytes_yields h len).1
  | write data n => exact hasWritten_yields h hpre.1 hpre.2
  | unwrite len =>
      have hy := unwrite_yields h hpre
      rwa [← length_readable h] at hy
  | retrieve len => exact retrieve_yields h hpre
  | retrieveUntil offset =>
      have hy := retrieveUntil_yields h (Nat.le_add_right _ offset) hpre
      rwa [Nat.add_sub_cancel_left] at hy
  | retrieveAll => exact ⟨rfl, retrieveAll_inv h, readable_retrieveAll b⟩
  | retrieveAsString len => exact retrieveAsString_yields h hpre
  | prepend data => exact prepend_yields h hpre
  | shrink reserve => exact shrink_yields h hheld reserve
  | readFd result =>
      cases result with
      | ok data => exact (readFd_ok_yields h data).1
      | error errno => exact ⟨rfl, h, rfl⟩

/-! ## Pools of buffers -/

variable {ι : Type} [DecidableEq ι]

/-- The buffers of a program, and the assertions that have failed so far. -/
structure Pool (ι : Type) where
  bufs : ι → Buffer
  faults : List Assert

/-- Buffers of the given initial sizes. -/
def Pool.init (size : ι → Nat) : Pool ι := ⟨fun i => new (size i), []⟩

/-- A call on the buffer `i`, or `i.swap(j)`. -/
inductive Action (ι : Type)
  | on (i : ι) (op : Op)
  | swap (i j : ι)

/-- A call made within its precondition, with fewer than 2^31 bytes held. -/
def Pool.step (s : Pool ι) : Action ι → Option (Pool ι)
  | .on i op =>
    if (s.bufs i).readableBytes < 2 ^ 31 ∧ op.Pre (s.bufs i) then
      let x := op.exec (s.bufs i)
      some ⟨Function.update s.bufs i x.val, s.faults ++ x.faults⟩
    else none
  | .swap i j =>
    let p := (s.bufs i).swap (s.bufs j)
    some ⟨Function.update (Function.update s.bufs i p.1) j p.2, s.faults⟩

/-- The abstract step. -/
def absStep (l : ι → List UInt8) : Action ι → ι → List UInt8
  | .on i op => Function.update l i (op.abs (l i))
  | .swap i j => Function.update (Function.update l i (l j)) j (l i)

/-- The refinement relation: indices in order, no assertion failed, same bytes. -/
structure Refines (s : Pool ι) (l : ι → List UInt8) : Prop where
  inv : ∀ i, (s.bufs i).Inv
  faults : s.faults = []
  bytes : ∀ i, (s.bufs i).readable = l i

omit [DecidableEq ι] in
theorem init_refines (size : ι → Nat) : Refines (Pool.init size) fun _ => [] where
  inv i := new_inv (size i)
  faults := rfl
  bytes i := readable_new (size i)

theorem step_refines (s : Pool ι) (a : Action ι) (s' : Pool ι) (l : ι → List UInt8)
    (h : Refines s l) (hs : s.step a = some s') : Refines s' (absStep l a) := by
  cases a with
  | on i op =>
      simp only [Pool.step, Option.ite_none_right_eq_some, Option.some.injEq] at hs
      obtain ⟨⟨hheld, hpre⟩, rfl⟩ := hs
      have hy := exec_yields (h.inv i) hheld op hpre
      refine ⟨?_, ?_, ?_⟩
      · intro j
        by_cases hj : j = i
        · subst hj
          simpa using hy.inv
        · simpa [hj] using h.inv j
      · simp only [h.faults, List.nil_append]
        exact hy.ok
      · intro j
        by_cases hj : j = i
        · subst hj
          simpa [absStep, ← h.bytes j] using hy.readable
        · simpa [absStep, hj] using h.bytes j
  | swap i j =>
      simp only [Pool.step, Option.some.injEq] at hs
      subst hs
      -- the cell written last is looked at first, so that `i = j` needs no case of its own
      refine ⟨?_, h.faults, ?_⟩
      · intro k
        by_cases hj : k = j
        · subst hj
          simpa [swap] using h.inv i
        · by_cases hi : k = i
          · subst hi
            simpa [swap, hj] using h.inv j
          · simpa [hj, hi] using h.inv k
      · intro k
        by_cases hj : k = j
        · subst hj
          simpa [swap, absStep] using h.bytes i
        · by_cases hi : k = i
          · subst hi
            simpa [swap, absStep, hj] using h.bytes j
          · simpa [absStep, hj, hi] using h.bytes k

/-- For every initial size and every sequence of calls within their
    preconditions: the indices stay in order, no assertion fails (the one in the
    move branch of `makeSpace` included), `ensureWritableBytes` makes the room it
    was asked for, and each readable region is the abstract byte list. -/
theorem buffer_run_refines (size : ι → Nat) (acts : List (Action ι)) (s : Pool ι)
    (h : run Pool.step (Pool.init size) acts = some s) :
    (∀ i, (s.bufs i).readerIndex ≤ (s.bufs i).writerIndex ∧
      (s.bufs i).writerIndex ≤ (s.bufs i).bufferVec.length) ∧
    s.faults = [] ∧
    (∀ i len, len ≤ ((s.bufs i).ensureWritableBytes len).val.writableBytes) ∧
    (∀ i, (s.bufs i).readable = acts.foldl absStep (fun _ => []) i) := by
  have hr : Refines s (acts.foldl absStep fun _ => []) :=
    run_simulates step_refines (init_refines size) h
  exact ⟨fun i => ⟨(hr.inv i).reader_le, (hr.inv i).writer_le⟩, hr.faults,
    fun i len => (ensureWritableBytes_yields (hr.inv i) len).2, hr.bytes⟩

/-- A run that eats into the front reserve, grows, moves its bytes back down and
    spills into `extrabuf`. -/
def sampleRun : List (Action Bool) :=
  [.on true (.append [1, 2, 3]), .on true (.prepend [9, 8]), .on true (.retrieve 4),
   .on true (.readFd (.ok [4, 5, 6, 7])), .swap true false, .on false (.unwrite 1),
   .on false (.shrink 2), .on true (.write [7, 7] 1)]

/-- The run above is one of the runs of `buffer_run_refines`. -/
theorem buffer_run_refines_sampleRun :
    ∃ s, run Pool.step (Pool.init fun _ => 4) sampleRun = some s ∧
      (s.bufs false).readable = [3, 4, 5, 6] ∧ (s.bufs true).readable = [7] := by
  refine ⟨_, rfl, ?_, ?_⟩
  · rw [(buffer_run_refines (fun _ => 4) sampleRun _ rfl).2.2.2 false]
    rfl
  · rw [(buffer_run_refines (fun _ => 4) sampleRun _ rfl).2.2.2 true]
    rfl

end Buffer
end Youth.Net
