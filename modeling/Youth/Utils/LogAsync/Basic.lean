/-
  Youth.Utils.LogAsync.Basic

  The asynchronous log of `youth/utils/LogAsync.cpp`, on the fixed-size buffers of
  `youth/utils/LogBuffer.h`.

  `append` holds the mutex from its first line to its last, and so does the swap of the
  log thread, so each of them is one step; the writes of the log thread and what it does
  with the written buffers are steps of its own.  `Phase` says where the log thread is.
  The two spare buffers are there at the top of its loop, as its assertions say: they are
  arguments of `Phase.top`, and a recycling that does not find them is not enabled.

  The field `appended` is a ghost.  Left out: `start`, `stop` and the destructor, the
  waits (the swap may come at any time), the flushes and the copy on `stderr`.
-/

import Youth.Lib.Printf

namespace Youth.Utils

open Youth.Lib

def maxBuffer : Nat := 4000 * 1000

/-- The bytes in front of `m_dataP`. -/
structure LogBuffer (SIZE : Nat) where
  data : List UInt8
  inRange : data.length ≤ SIZE
  deriving DecidableEq

namespace LogBuffer

variable {SIZE : Nat}

/-- `LogBuffer()`, and `reset()`. -/
def empty : LogBuffer SIZE := ⟨[], Nat.zero_le SIZE⟩

def length (b : LogBuffer SIZE) : Nat := b.data.length

def avail (b : LogBuffer SIZE) : Nat := SIZE - b.length

/-- `append`, up to the last byte but one: `pEndBuffer` is the address of the last. -/
def append (b : LogBuffer SIZE) (pData : List UInt8) : LogBuffer SIZE :=
  if h : SIZE - 1 - b.length > pData.length then
    { data := b.data ++ pData
      inRange := by
        rw [List.length_append]
        exact Nat.le_of_lt (Nat.lt_of_lt_of_le
          (Nat.add_lt_of_lt_sub' h) (Nat.sub_le SIZE 1)) }
  else b

end LogBuffer

namespace LogAsync

abbrev Buffer := LogBuffer maxBuffer

/-- Where the log thread is, with the spare buffers it holds. -/
inductive Phase
  /-- In front of the lock, with `newBuffer1` and `newBuffer2`. -/
  | top (newBuffer1 newBuffer2 : Buffer)
  /-- After the swap, in front of the test of the size of the batch. -/
  | swapped (newBuffer2 : Option Buffer)
  /-- In the loop over `buffersToWrite`, of which the first `i` are written. -/
  | writing (newBuffer2 : Option Buffer) (i : Nat)

structure World where
  /-- `m_dateTime.toStandardFormat()`. -/
  startTime : List Char := []
  currentBuffer : Buffer := .empty
  nextBuffer : Option Buffer := some .empty
  buffers : List Buffer := []
  buffersToWrite : List Buffer := []
  phase : Phase := .top .empty .empty
  /-- The bytes passed to `LogFile::outputFunc`. -/
  output : List UInt8 := []
  /-- Ghost: the lines appended, in the order of the lock. -/
  appended : List UInt8 := []

def append (s : World) (line : List UInt8) : World :=
  let s := { s with appended := s.appended ++ line }
  if s.currentBuffer.avail > line.length then
    { s with currentBuffer := s.currentBuffer.append line }
  else
    { s with
      buffers := s.buffers ++ [s.currentBuffer]
      currentBuffer := (s.nextBuffer.getD .empty).append line
      nextBuffer := none }

/-- The lock-protected part of `threadFunc`. -/
def swap (s : World) (newBuffer1 newBuffer2 : Buffer) : World :=
  let s := { s with
    buffersToWrite := s.buffers ++ [s.currentBuffer]
    buffers := []
    currentBuffer := newBuffer1 }
  match s.nextBuffer with
  | some _ => { s with phase := .swapped (some newBuffer2) }
  | none => { s with nextBuffer := some newBuffer2, phase := .swapped none }

/-- The line that reports the buffers dropped from a batch of `n`. -/
def dropMessage (s : World) (n : Nat) : List Char :=
  snprintf 256 ("Dropped log messages at ".toList ++ s.startTime ++ ", ".toList ++
    formatNat (n - 2) ++ " larger buffers\n".toList)

/-- The test of the size of the batch. -/
def limit (s : World) (newBuffer2 : Option Buffer) : World :=
  if s.buffersToWrite.length > 25 then
    { s with
      output := s.output ++ ascii (dropMessage s s.buffersToWrite.length)
      buffersToWrite := s.buffersToWrite.take 2
      phase := .writing newBuffer2 0 }
  else { s with phase := .writing newBuffer2 0 }

/-- The spare buffers for the next round, out of the written ones. -/
def recycle (buffersToWrite : List Buffer) (newBuffer2 : Option Buffer) :
    Option (Buffer × Buffer) :=
  let kept := buffersToWrite.take 2
  match kept.getLast?, newBuffer2, kept.dropLast.getLast? with
  | some _, some b2, _ => some (.empty, b2)
  | some _, none, some _ => some (.empty, .empty)
  | _, _, _ => none

inductive Action
  /-- `append`, in any thread. -/
  | append (line : List UInt8)
  | swap
  | limit
  /-- One `LogFile::outputFunc` of the loop. -/
  | write
  | recycle
  deriving DecidableEq, Repr

def step (s : World) (a : Action) : Option World :=
  match a, s.phase with
  | .append line, _ => some (append s line)
  | .swap, .top newBuffer1 newBuffer2 => some (swap s newBuffer1 newBuffer2)
  | .limit, .swapped newBuffer2 => some (limit s newBuffer2)
  | .write, .writing newBuffer2 i =>
    match s.buffersToWrite[i]? with
    | some b => some { s with output := s.output ++ b.data, phase := .writing newBuffer2 (i + 1) }
    | none => none
  | .recycle, .writing newBuffer2 i =>
    if s.buffersToWrite.length ≤ i then
      match recycle s.buffersToWrite newBuffer2 with
      | some (b1, b2) => some { s with buffersToWrite := [], phase := .top b1 b2 }
      | none => none
    else none
  | _, _ => none

end LogAsync
end Youth.Utils
