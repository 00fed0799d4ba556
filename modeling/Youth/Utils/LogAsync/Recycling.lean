/-
  Youth.Utils.LogAsync.Recycling

  The buffers of `youth/utils/LogAsync.cpp` as the pointers they are.

  `Youth.Utils.LogAsync.Basic` takes it for granted that the current buffer is there and
  that the log thread has two spare ones at the head of its loop.  Here every
  `std::unique_ptr` may be null, a `std::move` leaves a null behind, and each use of a null
  pointer, each `pop_back` of an empty vector and each failed assertion is kept in
  `faults`.  The log thread goes through `threadFunc` line by line, with `append`s of other
  threads in between.

  Every run is matched by one of `Youth.Utils.LogAsync.Basic` (`step_refines`), where the
  spare buffers are counted: when the next buffer was taken, a full one is in front of the
  current one.  So there is no fault (`recycling_never_dry`).
-/

import Youth.Utils.LogAsync.Intact

namespace Youth.Utils
namespace LogAsync

open Youth.Lib

/-- `std::unique_ptr<Buffer>` -/
abbrev BufferPtr := Option Buffer

namespace Pointers

inductive Fault
  /-- `assert(newBuffer1 && newBuffer1->length() == 0)` -/
  | newBuffer1
  /-- `assert(newBuffer2 && newBuffer2->length() == 0)` -/
  | newBuffer2
  /-- `assert(buffersToWrite.empty())` -/
  | batchLeft
  /-- `m_currentBuffer` is null where it is used. -/
  | nullCurrent
  /-- `assert(!buffersToWrite.empty())` -/
  | batchEmpty
  /-- A null pointer in the batch. -/
  | nullWritten
  /-- `back()` or `pop_back()` of an empty vector. -/
  | popBack
  /-- `reset()` through a null pointer. -/
  | nullReset
  deriving DecidableEq, Repr

/-- Where the log thread is. -/
inductive Line
  /-- At the assertions of the loop. -/
  | head
  /-- In front of the swap, under the mutex. -/
  | swap
  | limit
  /-- In the loop over the batch, at the buffer `i`. -/
  | write (i : Nat)
  | resize
  | recycle1
  | recycle2
  | clear
  deriving DecidableEq, Repr

end Pointers

open Pointers

structure Pointers where
  startTime : List Char := []
  currentBuffer : BufferPtr := some .empty
  nextBuffer : BufferPtr := some .empty
  buffers : List BufferPtr := []
  newBuffer1 : BufferPtr := some .empty
  newBuffer2 : BufferPtr := some .empty
  buffersToWrite : List BufferPtr := []
  line : Line := .head
  output : List UInt8 := []
  /-- Ghost, as in `World`. -/
  appended : List UInt8 := []
  faults : List Fault := []

namespace Pointers

def check (p : Pointers) (q : Prop) [Decidable q] (f : Fault) : Pointers :=
  { p with faults := p.faults ++ if q then [] else [f] }

def append (p : Pointers) (line : List UInt8) : Pointers :=
  let p := { p with appended := p.appended ++ line }
  match p.currentBuffer with
  | none => { p with faults := p.faults ++ [.nullCurrent] }
  | some b =>
    if b.avail > line.length then { p with currentBuffer := some (b.append line) }
    else
      let p := { p with buffers := p.buffers ++ [p.currentBuffer], currentBuffer := none }
      match p.nextBuffer with
      | some next => { p with currentBuffer := some (next.append line), nextBuffer := none }
      | none => { p with currentBuffer := some (LogBuffer.empty.append line) }

/-- Non-null, with nothing in it. -/
def fresh (b : BufferPtr) : Bool := b.any fun b => b.length = 0

def swap (p : Pointers) : Pointers :=
  let p := p.check (p.currentBuffer.isSome = true) .nullCurrent
  let p :=
    { p with
      buffers := p.buffersToWrite
      buffersToWrite := p.buffers ++ [p.currentBuffer]
      currentBuffer := p.newBuffer1
      newBuffer1 := none }
  let p := if p.nextBuffer = none then { p with nextBuffer := p.newBuffer2, newBuffer2 := none } else p
  { p.check (p.buffersToWrite ≠ []) .batchEmpty with line := .limit }

/-- The same message as in `LogAsync.dropMessage`. -/
def dropMessage (p : Pointers) (n : Nat) : List UInt8 :=
  ascii (LogAsync.dropMessage { startTime := p.startTime } n)

def limit (p : Pointers) : Pointers :=
  if p.buffersToWrite.length > 25 then
    { p with
      output := p.output ++ p.dropMessage p.buffersToWrite.length
      buffersToWrite := p.buffersToWrite.take 2
      line := .write 0 }
  else { p with line := .write 0 }

/-- The loop over the batch, one buffer at a time. -/
def write (p : Pointers) (i : Nat) : Pointers :=
  match p.buffersToWrite[i]? with
  | some (some b) => { p with output := p.output ++ b.data, line := .write (i + 1) }
  | some none => { p with faults := p.faults ++ [.nullWritten], line := .write (i + 1) }
  | none => { p with line := .resize }

/-- What the two blocks behind the batch do for a spare buffer that is gone: the last of
    the batch is moved, popped and reset. -/
def reuse (p : Pointers) : Pointers × BufferPtr :=
  let b := (p.buffersToWrite.getLast?).join
  let p := p.check (p.buffersToWrite ≠ []) .popBack
  let p := p.check (b.isSome = true) .nullReset
  ({ p with buffersToWrite := p.buffersToWrite.dropLast }, b.map fun _ => .empty)

/-- What the log thread does next. -/
def thread (p : Pointers) : Pointers :=
  match p.line with
  | .head =>
    let p := p.check (fresh p.newBuffer1 = true) .newBuffer1
    let p := p.check (fresh p.newBuffer2 = true) .newBuffer2
    { p.check (p.buffersToWrite = []) .batchLeft with line := .swap }
  | .swap => p.swap
  | .limit => p.limit
  | .write i => p.write i
  | .resize =>
    { p with
      buffersToWrite :=
        if p.buffersToWrite.length > 2 then p.buffersToWrite.take 2 else p.buffersToWrite
      line := .recycle1 }
  | .recycle1 =>
    if p.newBuffer1 = none then { p.reuse.1 with newBuffer1 := p.reuse.2, line := .recycle2 }
    else { p with line := .recycle2 }
  | .recycle2 =>
    if p.newBuffer2 = none then { p.reuse.1 with newBuffer2 := p.reuse.2, line := .clear }
    else { p with line := .clear }
  | .clear => { p with buffersToWrite := [], line := .head }

inductive Action
  /-- `append`, in any thread. -/
  | append (line : List UInt8)
  /-- The log thread goes on. -/
  | thread
  deriving DecidableEq, Repr

def step (p : Pointers) : Action → Pointers
  | .append line => p.append line
  | .thread => p.thread

/-! ## The buffers behind the pointers -/

/-- Where the log thread is in `w`, and what it holds. -/
def Holds (p : Pointers) (w : World) : Prop :=
  match p.line with
  | .head | .swap => ∃ b1 b2, w.phase = .top b1 b2 ∧ p.newBuffer1 = some b1 ∧
      p.newBuffer2 = some b2 ∧ p.buffersToWrite = [] ∧ w.buffersToWrite = []
  | .limit => w.phase = .swapped p.newBuffer2 ∧ p.newBuffer1 = none ∧
      p.buffersToWrite = w.buffersToWrite.map some
  | .write i => w.phase = .writing p.newBuffer2 i ∧ p.newBuffer1 = none ∧
      p.buffersToWrite = w.buffersToWrite.map some
  | .resize => ∃ i, w.phase = .writing p.newBuffer2 i ∧ w.buffersToWrite.length ≤ i ∧
      p.newBuffer1 = none ∧ p.buffersToWrite = w.buffersToWrite.map some
  | .recycle1 => ∃ i, w.phase = .writing p.newBuffer2 i ∧ w.buffersToWrite.length ≤ i ∧
      p.newBuffer1 = none ∧ p.buffersToWrite = (w.buffersToWrite.take 2).map some
  | .recycle2 => ∃ i, w.phase = .writing p.newBuffer2 i ∧ w.buffersToWrite.length ≤ i ∧
      p.newBuffer1 = some .empty ∧ p.buffersToWrite = ((w.buffersToWrite.take 2).dropLast).map some
  | .clear => ∃ i newBuffer2 b2, w.phase = .writing newBuffer2 i ∧ w.buffersToWrite.length ≤ i ∧
      LogAsync.recycle w.buffersToWrite newBuffer2 = some (.empty, b2) ∧
      p.newBuffer1 = some .empty ∧ p.newBuffer2 = some b2

/-- The pointers hold the buffers of `w`, and nothing has gone wrong. -/
structure Refines (p : Pointers) (w : World) : Prop where
  startTime : p.startTime = w.startTime
  current : p.currentBuffer = some w.currentBuffer
  next : p.nextBuffer = w.nextBuffer
  buffers : p.buffers = w.buffers.map some
  holds : Holds p w
  output : p.output = w.output
  appended : p.appended = w.appended
  faults : p.faults = []
  spare : Spare w

variable {p : Pointers} {w : World}

theorem check_of {q : Prop} {_ : Decidable q} (h : q) (f : Fault) : p.check q f = p := by
  simp only [check, if_pos h, List.append_nil]

theorem fresh_of_empty {b : BufferPtr} (h : b = some .empty) : fresh b = true := by
  rw [h]
  rfl

/-- At the head of the loop there are two spare buffers, with nothing in them. -/
theorem Refines.top (h : Refines p w) (hline : p.line = .head ∨ p.line = .swap) :
    p.newBuffer1 = some .empty ∧ p.newBuffer2 = some .empty ∧ p.buffersToWrite = [] ∧
      w.phase = .top .empty .empty ∧ w.buffersToWrite = [] := by
  have hholds : ∃ b1 b2, w.phase = .top b1 b2 ∧ p.newBuffer1 = some b1 ∧ p.newBuffer2 = some b2 ∧
      p.buffersToWrite = [] ∧ w.buffersToWrite = [] := by
    have hholds := h.holds
    unfold Holds at hholds
    rcases hline with hline | hline <;> rwa [hline] at hholds
  obtain ⟨b1, b2, hphase, h1, h2, hbatch, hwbatch⟩ := hholds
  have hspare := h.spare.phase
  rw [hphase] at hspare
  obtain ⟨rfl, rfl⟩ := hspare
  exact ⟨h1, h2, hbatch, hphase, hwbatch⟩

/-- A step of the log thread that the machine of `LogAsync.step` does not see. -/
theorem Refines.stutter (h : Refines p w) {q : Pointers}
    (e : q = { p with
      newBuffer1 := q.newBuffer1
      newBuffer2 := q.newBuffer2
      buffersToWrite := q.buffersToWrite
      line := q.line }) (hholds : Holds q w) : Refines q w := by
  rw [e]
  exact ⟨h.startTime, h.current, h.next, h.buffers, e ▸ hholds, h.output, h.appended, h.faults, h.spare⟩

theorem Holds.of_same (h : Holds p w) {q : Pointers} {v : World} (hline : q.line = p.line)
    (h1 : q.newBuffer1 = p.newBuffer1) (h2 : q.newBuffer2 = p.newBuffer2)
    (hbatch : q.buffersToWrite = p.buffersToWrite) (hphase : v.phase = w.phase)
    (hwbatch : v.buffersToWrite = w.buffersToWrite) : Holds q v := by
  unfold Holds at h ⊢
  rw [hline, h1, h2, hbatch, hphase, hwbatch]
  exact h

theorem append_refines (h : Refines p w) (line : List UInt8) :
    Refines (p.append line) (LogAsync.append w line) := by
  have hspare := append_spare line h.spare
  unfold LogAsync.append at hspare ⊢
  unfold append
  dsimp only at hspare ⊢
  rw [h.current]
  dsimp only
  split
  next hroom =>
    rw [if_pos hroom] at hspare
    exact ⟨h.startTime, rfl, h.next, h.buffers, h.holds.of_same rfl rfl rfl rfl rfl rfl, h.output,
      by rw [h.appended], h.faults, hspare⟩
  next hroom =>
    rw [if_neg hroom] at hspare
    have hbuffers : p.buffers ++ [some w.currentBuffer] = (w.buffers ++ [w.currentBuffer]).map some := by
      rw [h.buffers, List.map_append]
      rfl
    -- the next buffer takes the place of the current one, or a new one does
    rcases hnext : p.nextBuffer with _ | next
    · have hwnext : w.nextBuffer = none := h.next.symm.trans hnext
      rw [hwnext] at hspare ⊢
      exact ⟨h.startTime, rfl, rfl, hbuffers, h.holds.of_same rfl rfl rfl rfl rfl rfl, h.output,
        by rw [h.appended], h.faults, hspare⟩
    · have hwnext : w.nextBuffer = some next := h.next.symm.trans hnext
      rw [hwnext] at hspare ⊢
      exact ⟨h.startTime, rfl, rfl, hbuffers, h.holds.of_same rfl rfl rfl rfl rfl rfl, h.output,
        by rw [h.appended], h.faults, hspare⟩

theorem head_refines (h : Refines p w) (hline : p.line = .head) : Refines p.thread w := by
  obtain ⟨h1, h2, hbatch, hphase, hwbatch⟩ := h.top (.inl hline)
  have hthread : p.thread = { p with line := .swap } := by
    unfold thread
    rw [hline]
    dsimp only
    rw [check_of (fresh_of_empty h1), check_of (fresh_of_empty h2), check_of hbatch]
  rw [hthread]
  refine h.stutter rfl ?_
  exact ⟨.empty, .empty, hphase, h1, h2, hbatch, hwbatch⟩

theorem swap_of_none (hcurrent : p.currentBuffer.isSome = true) (hnext : p.nextBuffer = none) :
    p.swap = { p with
      buffers := p.buffersToWrite
      buffersToWrite := p.buffers ++ [p.currentBuffer]
      currentBuffer := p.newBuffer1
      newBuffer1 := none
      nextBuffer := p.newBuffer2
      newBuffer2 := none
      line := .limit } := by
  have hcheck : p.check (p.currentBuffer.isSome = true) .nullCurrent = p := check_of hcurrent _
  unfold swap
  rw [hcheck]
  simp [hnext, check]

theorem swap_of_some {next : Buffer} (hcurrent : p.currentBuffer.isSome = true)
    (hnext : p.nextBuffer = some next) :
    p.swap = { p with
      buffers := p.buffersToWrite
      buffersToWrite := p.buffers ++ [p.currentBuffer]
      currentBuffer := p.newBuffer1
      newBuffer1 := none
      line := .limit } := by
  have hcheck : p.check (p.currentBuffer.isSome = true) .nullCurrent = p := check_of hcurrent _
  unfold swap
  rw [hcheck]
  simp [hnext, check]

/-- The swap takes the current buffer, and the spare ones take the places that are free. -/
theorem swap_refines (h : Refines p w) (hline : p.line = .swap) :
    Refines p.thread (LogAsync.swap w .empty .empty) := by
  obtain ⟨h1, h2, hbatch, hphase, hwbatch⟩ := h.top (.inr hline)
  have hspare := swap_spare h.spare hphase
  have hmap : p.buffers ++ [p.currentBuffer] = (w.buffers ++ [w.currentBuffer]).map some := by
    rw [h.buffers, h.current, List.map_append]
    rfl
  have hthread : p.thread = p.swap := by rw [thread, hline]
  rw [hthread]
  unfold LogAsync.swap at hspare ⊢
  dsimp only at hspare ⊢
  rcases hnext : p.nextBuffer with _ | next
  · have hwnext : w.nextBuffer = none := h.next.symm.trans hnext
    rw [hwnext] at hspare ⊢
    rw [swap_of_none (by rw [h.current]; rfl) hnext]
    exact ⟨h.startTime, h1, h2, hbatch, ⟨rfl, rfl, hmap⟩, h.output, h.appended, h.faults, hspare⟩
  · have hwnext : w.nextBuffer = some next := h.next.symm.trans hnext
    rw [hwnext] at hspare ⊢
    rw [swap_of_some (by rw [h.current]; rfl) hnext]
    exact ⟨h.startTime, h1, h.next.trans hwnext, hbatch, ⟨by rw [h2], rfl, hmap⟩, h.output,
      h.appended, h.faults, hspare⟩

theorem limit_refines (h : Refines p w) (hline : p.line = .limit) :
    Refines p.thread (LogAsync.limit w p.newBuffer2) ∧ w.phase = .swapped p.newBuffer2 := by
  have hholds := h.holds
  unfold Holds at hholds
  rw [hline] at hholds
  obtain ⟨hphase, h1, hbatch⟩ := hholds
  refine ⟨?_, hphase⟩
  have hspare := limit_spare h.spare hphase
  have hlength : p.buffersToWrite.length = w.buffersToWrite.length := by rw [hbatch, List.length_map]
  have hmessage (n : Nat) : p.dropMessage n = ascii (LogAsync.dropMessage w n) := by
    rw [dropMessage, LogAsync.dropMessage, LogAsync.dropMessage, h.startTime]
  unfold thread limit
  rw [hline]
  dsimp only
  unfold LogAsync.limit at hspare ⊢
  rw [hlength]
  split
  next hlarge =>
    rw [if_pos hlarge] at hspare
    refine ⟨h.startTime, h.current, h.next, h.buffers, ⟨rfl, h1, ?_⟩, ?_, h.appended, h.faults, hspare⟩
    · rw [hbatch, List.map_take]
    · rw [h.output, hmessage]
  next hlarge =>
    rw [if_neg hlarge] at hspare
    exact ⟨h.startTime, h.current, h.next, h.buffers, ⟨rfl, h1, hbatch⟩, h.output, h.appended,
      h.faults, hspare⟩

theorem write_refines (h : Refines p w) {i : Nat} (hline : p.line = .write i) :
    ∃ actions v, run LogAsync.step w actions = some v ∧ Refines p.thread v := by
  have hholds := h.holds
  unfold Holds at hholds
  rw [hline] at hholds
  obtain ⟨hphase, h1, hbatch⟩ := hholds
  have hthread : p.thread = p.write i := by rw [thread, hline]
  have hptr : p.buffersToWrite[i]? = w.buffersToWrite[i]?.map some := by rw [hbatch, List.getElem?_map]
  rw [hthread, write, hptr]
  rcases hget : w.buffersToWrite[i]? with _ | b
  · -- the end of the batch
    have hdone : w.buffersToWrite.length ≤ i := List.getElem?_eq_none_iff.mp hget
    refine ⟨[], w, rfl, h.stutter rfl ⟨i, hphase, hdone, h1, hbatch⟩⟩
  · have hstep : LogAsync.step w .write =
        some { w with output := w.output ++ b.data, phase := .writing p.newBuffer2 (i + 1) } := by
      simp only [LogAsync.step, hphase, hget]
    refine ⟨[.write], _, run_cons_eq_some.mpr ⟨_, hstep, rfl⟩, ?_⟩
    exact ⟨h.startTime, h.current, h.next, h.buffers, ⟨rfl, h1, hbatch⟩,
      congrArg (· ++ b.data) h.output, h.appended, h.faults, step_spare h.spare hstep⟩

theorem resize_refines (h : Refines p w) (hline : p.line = .resize) : Refines p.thread w := by
  have hholds := h.holds
  unfold Holds at hholds
  rw [hline] at hholds
  obtain ⟨i, hphase, hdone, h1, hbatch⟩ := hholds
  have hkept : (if p.buffersToWrite.length > 2 then p.buffersToWrite.take 2 else p.buffersToWrite) =
      (w.buffersToWrite.take 2).map some := by
    rw [List.map_take, ← hbatch]
    split
    next => rfl
    next hsmall => exact (List.take_of_length_le (Nat.not_lt.mp hsmall)).symm
  unfold thread
  rw [hline]
  refine h.stutter rfl ⟨i, hphase, hdone, h1, hkept⟩

/-- The last of a batch that is not empty is there to be used again. -/
theorem reuse_of {batch : List Buffer} {b : Buffer} (h : p.buffersToWrite = (batch ++ [b]).map some) :
    p.reuse = ({ p with buffersToWrite := batch.map some }, some .empty) := by
  have hlast : p.buffersToWrite.getLast?.join = some b := by simp [h]
  have hne : p.buffersToWrite ≠ [] := by simp [h]
  have hdrop : p.buffersToWrite.dropLast = batch.map some := by simp [h]
  have hsome : p.check ((some b).isSome = true) .nullReset = p := check_of rfl _
  unfold reuse
  dsimp only
  rw [hlast, check_of hne, hsome, hdrop]
  rfl

theorem recycle1_refines (h : Refines p w) (hline : p.line = .recycle1) : Refines p.thread w := by
  have hholds := h.holds
  unfold Holds at hholds
  rw [hline] at hholds
  obtain ⟨i, hphase, hdone, h1, hbatch⟩ := hholds
  have hspare := h.spare.phase
  rw [hphase] at hspare
  -- the swap has put the current buffer into the batch
  have hne : w.buffersToWrite.take 2 ≠ [] := by simpa using hspare.2.1
  have hsplit := List.dropLast_concat_getLast hne
  rw [← hsplit] at hbatch
  unfold thread
  rw [hline]
  dsimp only
  rw [if_pos h1, reuse_of hbatch]
  exact h.stutter rfl ⟨i, hphase, hdone, rfl, rfl⟩

theorem recycle2_refines (h : Refines p w) (hline : p.line = .recycle2) : Refines p.thread w := by
  have hholds := h.holds
  unfold Holds at hholds
  rw [hline] at hholds
  obtain ⟨i, hphase, hdone, h1, hbatch⟩ := hholds
  have hspare := h.spare.phase
  rw [hphase] at hspare
  obtain ⟨-, hne, htwo⟩ := hspare
  unfold thread
  rw [hline]
  dsimp only
  rcases h2 : p.newBuffer2 with _ | b2
  · -- the next buffer was taken, so the batch had two at least
    rcases hw : w.buffersToWrite with _ | ⟨b, _ | ⟨c, bs⟩⟩
    · exact absurd hw hne
    · rw [hw] at htwo
      exact absurd (htwo h2) (by simp)
    · rw [hw] at hbatch
      rw [if_pos rfl, reuse_of (show p.buffersToWrite = ([] ++ [b]).map some from hbatch)]
      refine h.stutter rfl ⟨i, none, .empty, h2 ▸ hphase, hdone, ?_, h1, rfl⟩
      rw [hw]
      rfl
  · rw [if_neg nofun]
    refine h.stutter rfl ⟨i, some b2, b2, h2 ▸ hphase, hdone, ?_, h1, rfl⟩
    rcases hw : w.buffersToWrite with _ | ⟨b, _ | ⟨c, bs⟩⟩
    · exact absurd hw hne
    · rfl
    · rfl

theorem clear_refines (h : Refines p w) (hline : p.line = .clear) :
    ∃ actions v, run LogAsync.step w actions = some v ∧ Refines p.thread v := by
  have hholds := h.holds
  unfold Holds at hholds
  rw [hline] at hholds
  obtain ⟨i, newBuffer2, b2, hphase, hdone, hrecycle, h1, h2⟩ := hholds
  have hstep : LogAsync.step w .recycle =
      some { w with buffersToWrite := [], phase := .top .empty b2 } := by
    simp only [LogAsync.step, hphase, if_pos hdone, hrecycle]
  -- the four lines from the resize to here are one step there
  refine ⟨[.recycle], _, run_cons_eq_some.mpr ⟨_, hstep, rfl⟩, ?_⟩
  unfold thread
  rw [hline]
  exact ⟨h.startTime, h.current, h.next, h.buffers, ⟨.empty, b2, rfl, h1, h2, rfl, rfl⟩, h.output,
    h.appended, h.faults, step_spare h.spare hstep⟩

/-- Every step is matched by steps of `LogAsync.step`, one or none. -/
theorem step_refines (p : Pointers) (a : Action) (w : World) (h : Refines p w) :
    ∃ actions v, run LogAsync.step w actions = some v ∧ Refines (p.step a) v := by
  cases a with
  | append line => exact ⟨[.append line], _, rfl, append_refines h line⟩
  | thread =>
      show ∃ actions v, run LogAsync.step w actions = some v ∧ Refines p.thread v
      rcases hline : p.line with _ | _ | _ | i | _ | _ | _ | _
      · exact ⟨[], w, rfl, head_refines h hline⟩
      · obtain ⟨-, -, -, hphase, -⟩ := h.top (.inr hline)
        have hstep : LogAsync.step w .swap = some (LogAsync.swap w .empty .empty) := by
          simp only [LogAsync.step, hphase]
        exact ⟨[.swap], _, run_cons_eq_some.mpr ⟨_, hstep, rfl⟩, swap_refines h hline⟩
      · obtain ⟨hrefines, hphase⟩ := limit_refines h hline
        have hstep : LogAsync.step w .limit = some (LogAsync.limit w p.newBuffer2) := by
          simp only [LogAsync.step, hphase]
        exact ⟨[.limit], _, run_cons_eq_some.mpr ⟨_, hstep, rfl⟩, hrefines⟩
      · exact write_refines h hline
      · exact ⟨[], w, rfl, resize_refines h hline⟩
      · exact ⟨[], w, rfl, recycle1_refines h hline⟩
      · exact ⟨[], w, rfl, recycle2_refines h hline⟩
      · exact clear_refines h hline

theorem start_refines (startTime : List Char) :
    Refines { startTime := startTime } { startTime := startTime } :=
  ⟨rfl, rfl, rfl, rfl, ⟨.empty, .empty, rfl, rfl, rfl, rfl, rfl⟩, rfl, rfl, rfl, spare_start startTime⟩

/-- **Log buffer recycling never runs dry.**  In every state of every interleaving: no null
    pointer was used, no empty vector popped and no assertion failed, the current buffer
    is there, and at the head of the loop there are two spare buffers with nothing in them
    and the batch is empty. -/
theorem recycling_never_dry (startTime : List Char) (actions : List Action) :
    (actions.foldl step { startTime := startTime }).faults = [] ∧
    (actions.foldl step { startTime := startTime }).currentBuffer ≠ none ∧
    ((actions.foldl step { startTime := startTime }).line = .head →
      ∃ b1 b2, (actions.foldl step { startTime := startTime }).newBuffer1 = some b1 ∧ b1.length = 0 ∧
        (actions.foldl step { startTime := startTime }).newBuffer2 = some b2 ∧ b2.length = 0 ∧
        (actions.foldl step { startTime := startTime }).buffersToWrite = []) := by
  obtain ⟨_, w, -, h⟩ := foldl_refines step_refines (start_refines startTime) actions
  refine ⟨h.faults, ?_, fun hline => ?_⟩
  · rw [h.current]
    exact Option.some_ne_none _
  · obtain ⟨h1, h2, hbatch, -, -⟩ := h.top (.inl hline)
    exact ⟨.empty, .empty, h1, rfl, h2, rfl, hbatch⟩

end Pointers
end LogAsync
end Youth.Utils
